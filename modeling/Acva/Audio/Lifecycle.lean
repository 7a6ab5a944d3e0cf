import Acva.Audio.LiveSink

/-! # The lifecycle of an utterance

The endpointer, the utterance buffer and the flag of the pipeline each keep track of
whether an utterance is going on. Between two frames they agree, and so what a frame
publishes depends on one of them alone.
-/

namespace Acva.Audio

open Acva.Runs

/-- What goes out on the bus, as opposed to the echo canceller and the live sink. -/
def PipelineOutput.isPublished : PipelineOutput → Bool
  | .publish _ => true
  | .utteranceReady _ => true
  | _ => false

def published (outs : List PipelineOutput) : List PipelineOutput :=
  outs.filter PipelineOutput.isPublished

/-- True for a start of speech and false for an end. -/
def boundaries (pubs : List PipelineOutput) : List Bool :=
  pubs.filterMap fun
    | .publish (.speechStarted _) => some true
    | .publish (.speechEnded _) => some false
    | _ => none

def speechEnds (pubs : List PipelineOutput) : Nat := (boundaries pubs).count false

/-- Starts and ends take turns, and a start comes first. -/
def Alternates (pubs : List PipelineOutput) : Prop :=
  ∀ k b, (boundaries pubs)[k]? = some b → (b = true ↔ k % 2 = 0)

/-- The last thing published before an utterance is an end of speech. -/
def ReadyFollowsEnd (pubs : List PipelineOutput) : Prop :=
  ∀ before slice after, pubs = before ++ .utteranceReady slice :: after →
    ∃ earlier e, before = earlier ++ [.publish (.speechEnded e)]

theorem published_append (os os' : List PipelineOutput) :
    published (os ++ os') = published os ++ published os' := by
  simp [published]

theorem boundaries_append (os os' : List PipelineOutput) :
    boundaries (os ++ os') = boundaries os ++ boundaries os' := by
  simp [boundaries]

theorem Alternates.append {pubs pubs' : List PipelineOutput} {b : Bool} (h : Alternates pubs)
    (hnew : boundaries pubs' = [b]) (hparity : b = true ↔ (boundaries pubs).length % 2 = 0) :
    Alternates (pubs ++ pubs') := by
  intro k c hc
  rw [boundaries_append, hnew] at hc
  by_cases hk : k < (boundaries pubs).length
  · rw [List.getElem?_append_left hk] at hc
    exact h k c hc
  · have hlt : k < (boundaries pubs ++ [b]).length := (List.getElem?_eq_some_iff.mp hc).choose
    rw [List.length_append, List.length_singleton] at hlt
    have hlast : k = (boundaries pubs).length := by omega
    rw [hlast, List.getElem?_concat_length] at hc
    rw [← Option.some.inj hc, hlast]
    exact hparity

theorem ReadyFollowsEnd.append {pubs pubs' : List PipelineOutput} (h : ReadyFollowsEnd pubs)
    (h' : ReadyFollowsEnd pubs') : ReadyFollowsEnd (pubs ++ pubs') := by
  intro before slice after heq
  rcases List.append_eq_append_iff.mp heq with ⟨mid, hbefore, hpubs'⟩ | ⟨mid, hpubs, hafter⟩
  · obtain ⟨earlier, e, rfl⟩ := h' mid slice after hpubs'
    exact ⟨pubs ++ earlier, e, by rw [hbefore, List.append_assoc]⟩
  · cases mid with
    | nil =>
        obtain ⟨earlier, e, hnil⟩ := h' [] slice after hafter.symm
        exact absurd hnil (by simp)
    | cons out mid =>
        obtain ⟨rfl, -⟩ := List.cons.inj hafter
        exact h before slice mid hpubs

namespace AudioPipeline

variable {ρ : Type} {ext : FrontEnd ρ} {p p' q : AudioPipeline ρ}

/-- The three of them agree. -/
structure InStep (p : AudioPipeline ρ) : Prop where
  recording : p.utteranceBuffer.recording = p.inSpeech
  endpointer : p.endpointer.inSpeech = p.inSpeech

/-- The two counters of ended utterances. -/
def totals (p : AudioPipeline ρ) : Nat × Nat := (p.utterancesTotal, p.lowRmsDropsTotal)

/-! ## One frame -/

/-- What a frame publishes, and what it does to the flag and the counters. -/
inductive FramePublishes (p p' : AudioPipeline ρ) : List PipelineOutput → Prop
  | nothing (hspeech : p'.inSpeech = p.inSpeech) (htotals : p'.totals = p.totals) :
      FramePublishes p p' []
  | started (e : SpeechStarted) (hout : p.inSpeech = false) (hin : p'.inSpeech = true)
      (htotals : p'.totals = p.totals) : FramePublishes p p' [.publish (.speechStarted e)]
  | dropped (e : SpeechEnded) (hin : p.inSpeech = true) (hout : p'.inSpeech = false)
      (htotals : p'.totals = (p.utterancesTotal, p.lowRmsDropsTotal + 1)) :
      FramePublishes p p' [.publish (.speechEnded e)]
  | ready (e : SpeechEnded) (slice : AudioSlice) (hin : p.inSpeech = true)
      (hout : p'.inSpeech = false)
      (htotals : p'.totals = (p.utterancesTotal + 1, p.lowRmsDropsTotal)) :
      FramePublishes p p' [.publish (.speechEnded e), .utteranceReady slice]

theorem prepare_totals {frame : AudioFrame} {chunk : List Playback.Sample}
    {outs : List PipelineOutput} (h : p.prepare ext frame = some (chunk, q, outs)) :
    q.totals = p.totals := by
  simp only [prepare] at h
  split at h
  · cases h
    rfl
  · split at h
    · cases h
    · cases h
      rfl

@[simp] theorem updateVad_totals (chunk : List Playback.Sample) :
    (p.updateVad ext chunk).totals = p.totals := by
  unfold updateVad
  split <;> rfl

@[simp] theorem overrideVad_totals : p.overrideVad.totals = p.totals := by
  unfold overrideVad
  split <;> rfl

theorem hear_totals (ext : FrontEnd ρ) (chunk : List Playback.Sample) (t : TimePoint)
    (p : AudioPipeline ρ) : (p.hear ext chunk t).1.totals = p.totals := by
  show (updateVad ext chunk { p with
    utteranceBuffer := p.utteranceBuffer.append chunk }).overrideVad.totals = p.totals
  rw [overrideVad_totals, updateVad_totals]
  rfl

theorem published_onsetReplay (chunk : List Playback.Sample) :
    published (p.onsetReplay chunk) = [] := by
  unfold onsetReplay
  by_cases hnil : p.utteranceBuffer.preBuffer = []
  · split <;> simp [published, PipelineOutput.isPublished, hnil]
  · split <;> simp [published, PipelineOutput.isPublished, hnil]

/-- What happened before did not touch the flag or the counters. -/
theorem FramePublishes.since {pubs : List PipelineOutput} (h : FramePublishes q p' pubs)
    (hspeech : q.inSpeech = p.inSpeech) (htotals : q.totals = p.totals) :
    FramePublishes p p' pubs := by
  obtain ⟨hutterances, hdrops⟩ := Prod.mk.inj htotals
  cases h with
  | nothing hsame hkept => exact .nothing (hsame.trans hspeech) (hkept.trans htotals)
  | started e hout hin hkept => exact .started e (hspeech ▸ hout) hin (hkept.trans htotals)
  | dropped e hin hout hcounted =>
      exact .dropped e (hspeech ▸ hin) hout (by rw [hcounted, hutterances, hdrops])
  | ready e slice hin hout hcounted =>
      exact .ready e slice (hspeech ▸ hin) hout (by rw [hcounted, hutterances, hdrops])

/-- In step, an end of speech finds a recording and makes a slice of it. -/
theorem endUtterance_publishes (t : TimePoint) (hrecording : p.utteranceBuffer.recording = true)
    (hspeech : p.inSpeech = true) (hended : p.endpointer.inSpeech = false) :
    (p.endUtterance t).1.InStep ∧
      FramePublishes p (p.endUtterance t).1 (published (p.endUtterance t).2) := by
  have hbuffer := UtteranceBuffer.onSpeechEnded_recording t p.utteranceBuffer
  have hoffered := offerSlice_offered (p.utteranceBuffer.onSpeechEnded t).2
    { p with utteranceBuffer := (p.utteranceBuffer.onSpeechEnded t).1, inSpeech := false }
  have hout : (p.endUtterance t).1.inSpeech = false := hoffered.inSpeech
  refine ⟨⟨?_, ?_⟩, ?_⟩
  · exact (congrArg _ hoffered.buffer).trans (hbuffer.trans hout.symm)
  · exact (congrArg _ hoffered.endpointer).trans (hended.trans hout.symm)
  · obtain ⟨slice, hslice⟩ : ∃ slice, (p.utteranceBuffer.onSpeechEnded t).2 = some slice := by
      unfold UtteranceBuffer.onSpeechEnded
      rw [if_pos hrecording]
      exact ⟨_, rfl⟩
    revert hout
    simp only [endUtterance, hslice, offerSlice]
    split
    · exact fun hout => .dropped _ hspeech hout rfl
    · exact fun hout => .ready _ slice hspeech hout rfl

theorem processChunk_publishes (ext : FrontEnd ρ) (hi : p.InStep)
    (chunk : List Playback.Sample) (t : TimePoint) :
    (p.processChunk ext chunk t).1.InStep ∧
      FramePublishes p (p.processChunk ext chunk t).1
        (published (p.processChunk ext chunk t).2) := by
  have heard := hear_heard ext chunk t p
  have htotals := hear_totals ext chunk t p
  have hrecording := UtteranceBuffer.append_recording chunk p.utteranceBuffer
  obtain ⟨recording, endpointer⟩ := hi
  have hlive : ∀ outs, published ((if p.inSpeech = true ∧ p.liveSink = true then [.live chunk]
      else []) ++ outs) = published outs := by
    intro outs
    rw [published_append]
    split <;> rfl
  simp only [processChunk, hlive]
  cases hhear : p.hear ext chunk t with
  | mk q outcome =>
      rw [hhear] at heard htotals
      obtain ⟨hbuffer, hspeech, -, houtcome⟩ := heard
      have hsame : q.utteranceBuffer.recording = p.inSpeech := by
        rw [hbuffer, hrecording, recording]
      cases outcome with
      | none =>
          cases houtcome with
          | none hkeeps =>
              refine ⟨⟨?_, ?_⟩, .nothing hspeech htotals⟩
              · exact hsame.trans hspeech.symm
              · exact hkeeps.trans (endpointer.trans hspeech.symm)
      | falseStart =>
          cases houtcome with
          | falseStart hquiet hkeeps =>
              refine ⟨⟨?_, ?_⟩, .nothing hspeech htotals⟩
              · exact hsame.trans hspeech.symm
              · exact hkeeps.trans (hquiet.symm.trans (endpointer.trans hspeech.symm))
      | speechStarted =>
          cases houtcome with
          | speechStarted hquiet hstarts =>
              have hout : p.inSpeech = false := endpointer ▸ hquiet
              refine ⟨⟨rfl, hstarts⟩, ?_⟩
              simp only [onOutcome, startUtterance, published_append, published_onsetReplay]
              exact .started _ hout rfl htotals
      | speechEnded =>
          cases houtcome with
          | speechEnded hspeaking hends =>
              have hin : p.inSpeech = true := endpointer ▸ hspeaking
              obtain ⟨hstep, hpublishes⟩ := endUtterance_publishes t (hsame.trans hin)
                (hspeech.trans hin) hends
              exact ⟨hstep, hpublishes.since hspeech htotals⟩

theorem processFrame_publishes {frame : AudioFrame} {outs : List PipelineOutput}
    (hi : p.InStep) (h : p.processFrame ext frame = some (p', outs)) :
    p'.InStep ∧ FramePublishes p p' (published outs) := by
  unfold processFrame at h
  cases hprepare : p.prepare ext frame with
  | none => simp [hprepare] at h
  | some prepared =>
      obtain ⟨chunk, q, blocks⟩ := prepared
      obtain ⟨hendpointer, hbuffer, hspeech, -, blocks, rfl⟩ := prepare_eq_some hprepare
      have htotals := prepare_totals hprepare
      have hq : q.InStep := by
        refine ⟨?_, ?_⟩
        · rw [hbuffer, hspeech, hi.recording]
        · rw [hendpointer, hspeech, hi.endpointer]
      have hblocks : published (blocks.map PipelineOutput.apmBlock) = [] := by
        simp [published, PipelineOutput.isPublished]
      simp only [hprepare] at h
      by_cases hchunk : chunk = []
      · rw [if_pos hchunk] at h
        cases h
        rw [hblocks]
        exact ⟨hq, .nothing hspeech htotals⟩
      · rw [if_neg hchunk] at h
        cases h
        rw [published_append, hblocks]
        obtain ⟨hstep, hpublishes⟩ := processChunk_publishes ext hq chunk frame.capturedAt
        exact ⟨hstep, hpublishes.since hspeech htotals⟩

/-! ## Runs -/

/-- All that has been published. -/
def notePublished (ext : FrontEnd ρ) (pubs : List PipelineOutput) (p : AudioPipeline ρ) :
    PipelineAction → List PipelineOutput
  | .frame frame => pubs ++ published (((p.processFrame ext frame).map Prod.snd).getD [])
  | _ => pubs

/-- An utterance goes on exactly while a start was not yet followed by its end, for all three
that keep track of it; a slice is published right after the end it belongs to, and each end
is counted once, as an utterance or as dropped for its loudness. -/
structure Lifecycle (p : AudioPipeline ρ) (pubs : List PipelineOutput) : Prop where
  alternates : Alternates pubs
  inSpeech : p.inSpeech = true ↔ (boundaries pubs).length % 2 = 1
  recording : p.inSpeech = true ↔ p.utteranceBuffer.recording = true
  endpointer : p.inSpeech = true ↔
    p.endpointer.state = .speaking ∨ p.endpointer.state = .endpoint
  ready : ReadyFollowsEnd pubs
  counted : p.utterancesTotal + p.lowRmsDropsTotal = speechEnds pubs

/-- What the induction carries. -/
structure LifecycleInv (p : AudioPipeline ρ) (pubs : List PipelineOutput) : Prop where
  inStep : p.InStep
  alternates : Alternates pubs
  parity : p.inSpeech = true ↔ (boundaries pubs).length % 2 = 1
  ready : ReadyFollowsEnd pubs
  counted : p.utterancesTotal + p.lowRmsDropsTotal = speechEnds pubs

theorem LifecycleInv.lifecycle {pubs : List PipelineOutput} (h : p.LifecycleInv pubs) :
    p.Lifecycle pubs := by
  refine ⟨h.alternates, h.parity, ?_, ?_, h.ready, h.counted⟩
  · rw [h.inStep.recording]
  · rw [← h.inStep.endpointer]
    simp [Endpointer.inSpeech]

theorem LifecycleInv.boundary {pubs new : List PipelineOutput} {b : Bool}
    (hi : p.LifecycleInv pubs) (hnew : boundaries new = [b]) (hbefore : p.inSpeech = !b)
    (hafter : p'.inSpeech = b) : Alternates (pubs ++ new) ∧
      (p'.inSpeech = true ↔ (boundaries (pubs ++ new)).length % 2 = 1) := by
  have hparity := hi.parity
  rw [hbefore] at hparity
  have hturn : b = true ↔ (boundaries pubs).length % 2 = 0 := by
    cases b with
    | true =>
        have hnot : ¬ (boundaries pubs).length % 2 = 1 := fun h => by simpa using hparity.mpr h
        exact iff_of_true rfl (by omega)
    | false =>
        have hodd : (boundaries pubs).length % 2 = 1 := hparity.mp rfl
        exact iff_of_false (by decide) (by omega)
  refine ⟨hi.alternates.append hnew hturn, ?_⟩
  rw [hafter, hturn, boundaries_append, hnew, List.length_append, List.length_singleton]
  omega

theorem readyFollowsEnd_of_not_mem {new : List PipelineOutput}
    (h : ∀ slice, .utteranceReady slice ∉ new) : ReadyFollowsEnd new := by
  intro before slice after heq
  exact absurd (heq ▸ List.mem_append_right _ List.mem_cons_self) (h slice)

theorem readyFollowsEnd_ended (e : SpeechEnded) (slice : AudioSlice) :
    ReadyFollowsEnd [.publish (.speechEnded e), .utteranceReady slice] := by
  intro before slice' after heq
  match before with
  | [] => cases heq
  | [out] =>
      obtain ⟨rfl, -⟩ := List.cons.inj heq
      exact ⟨[], e, rfl⟩
  | _ :: _ :: rest =>
      obtain ⟨-, heq⟩ := List.cons.inj heq
      obtain ⟨-, heq⟩ := List.cons.inj heq
      exact absurd heq (by simp)

theorem LifecycleInv.frame {pubs new : List PipelineOutput} (hi : p.LifecycleInv pubs)
    (hstep : p'.InStep) (h : FramePublishes p p' new) : p'.LifecycleInv (pubs ++ new) := by
  have hcounted := hi.counted
  have hends : speechEnds (pubs ++ new) = speechEnds pubs + speechEnds new := by
    simp [speechEnds, boundaries_append]
  cases h with
  | nothing hspeech htotals =>
      obtain ⟨hutterances, hdrops⟩ := Prod.mk.inj htotals
      rw [List.append_nil]
      refine ⟨hstep, hi.alternates, by rw [hspeech, hi.parity], hi.ready, ?_⟩
      rw [hutterances, hdrops, hcounted]
  | started e hout hin htotals =>
      obtain ⟨hutterances, hdrops⟩ := Prod.mk.inj htotals
      have hnew : boundaries [.publish (.speechStarted e)] = [true] := rfl
      obtain ⟨halternates, hparity⟩ := hi.boundary hnew hout hin
      refine ⟨hstep, halternates, hparity,
        hi.ready.append (readyFollowsEnd_of_not_mem (by simp)), ?_⟩
      rw [hutterances, hdrops, hcounted, hends]
      rfl
  | dropped e hin hout htotals =>
      obtain ⟨hutterances, hdrops⟩ := Prod.mk.inj htotals
      have hnew : boundaries [.publish (.speechEnded e)] = [false] := rfl
      obtain ⟨halternates, hparity⟩ := hi.boundary hnew hin hout
      refine ⟨hstep, halternates, hparity,
        hi.ready.append (readyFollowsEnd_of_not_mem (by simp)), ?_⟩
      rw [hutterances, hdrops, hends, ← hcounted]
      rfl
  | ready e slice hin hout htotals =>
      obtain ⟨hutterances, hdrops⟩ := Prod.mk.inj htotals
      have hnew : boundaries [.publish (.speechEnded e), .utteranceReady slice] = [false] := rfl
      obtain ⟨halternates, hparity⟩ := hi.boundary hnew hin hout
      refine ⟨hstep, halternates, hparity, hi.ready.append (readyFollowsEnd_ended e slice), ?_⟩
      rw [hutterances, hdrops, hends, ← hcounted]
      show _ = p.utterancesTotal + p.lowRmsDropsTotal + 1
      omega

theorem LifecycleInv.step {pubs : List PipelineOutput} {a : PipelineAction}
    (hi : p.LifecycleInv pubs) (h : p.step ext a = some p') :
    p'.LifecycleInv (p.notePublished ext pubs a) := by
  cases a with
  | frame frame =>
      obtain ⟨⟨q, outs⟩, hframe, rfl⟩ := Option.map_eq_some_iff.mp h
      obtain ⟨hstep, hpublishes⟩ := processFrame_publishes hi.inStep hframe
      simp only [notePublished, hframe, Option.map_some, Option.getD_some]
      exact hi.frame hstep hpublishes
  | setTestProbability probability =>
      cases h
      exact ⟨⟨hi.inStep.recording, hi.inStep.endpointer⟩, hi.alternates, hi.parity, hi.ready,
        hi.counted⟩
  | release ref =>
      cases h
      exact ⟨⟨hi.inStep.recording, hi.inStep.endpointer⟩, hi.alternates, hi.parity, hi.ready,
        hi.counted⟩

/-- Whatever is captured and whatever the detector says of it, with or without a live sink. -/
theorem run_lifecycle {cfg : PipelineConfig} {aecActive liveSink : Bool} {frontEnd : ρ}
    {acts : List PipelineAction} {pubs : List PipelineOutput}
    (hrun : run (watch (step ext) fun pubs p => p.notePublished ext pubs)
      ({ create cfg aecActive frontEnd with liveSink := liveSink }, []) acts = some (p, pubs)) :
    p.Lifecycle pubs := by
  have hstart : LifecycleInv
      ({ create cfg aecActive frontEnd with liveSink := liveSink } : AudioPipeline ρ) [] := by
    refine ⟨⟨rfl, rfl⟩, ?_, ?_, readyFollowsEnd_of_not_mem (by simp), rfl⟩
    · intro k b hk
      cases hk
    · exact iff_of_false (by simp [create]) (by decide)
  refine (run_preserves (fun w => LifecycleInv w.1 w.2) (fun w a w' hw hs => ?_) hrun
    hstart).lifecycle
  obtain ⟨hstep, hnote⟩ := watch_eq_some.mp hs
  rw [hnote]
  exact hw.step hstep

theorem run_lifecycle_oneUtterance :
    ∃ p pubs, run (watch (step passThrough) fun pubs p => p.notePublished passThrough pubs)
      ({ create slowRate false () with liveSink := false }, []) oneUtterance = some (p, pubs) ∧
        boundaries pubs = [true, false] ∧ p.Lifecycle pubs := by
  have hpubs : (run (watch (step passThrough) fun pubs p => p.notePublished passThrough pubs)
      ({ create slowRate false () with liveSink := false }, []) oneUtterance).map
        (fun w => boundaries w.2) = some [true, false] := by
    decide +kernel
  obtain ⟨⟨p, pubs⟩, hrun, hboundaries⟩ := Option.map_eq_some_iff.mp hpubs
  exact ⟨p, pubs, hrun, hboundaries, run_lifecycle hrun⟩

end AudioPipeline

end Acva.Audio

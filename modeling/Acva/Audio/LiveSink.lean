import Acva.Audio.Pipeline

/-! # The streaming path beside the buffered one

The chunk that matures an onset is appended before the pre-buffer is replayed, so
the replay holds it already when it is given to the live sink once more. The
streamed utterance is the buffered one with that chunk in it twice.
-/

namespace Acva.Audio

open Acva.Playback Acva.Runs

/-- An utterance as the two paths see it: what the live sink was given, and what the
utterance buffer took in, the adopted pre-padding first and nothing truncated. -/
structure Utterance where
  streamed : List Sample := []
  accumulated : List Sample := []
deriving DecidableEq, Repr

namespace Utterance

/-- Both paths see the same samples. -/
def SameOnBothPaths (u : Utterance) : Prop := u.streamed = u.accumulated

instance (u : Utterance) : Decidable u.SameOnBothPaths := by
  unfold SameOnBothPaths
  infer_instance

def extend (given taken : List Sample) (u : Utterance) : Utterance where
  streamed := u.streamed ++ given
  accumulated := u.accumulated ++ taken

end Utterance

/-- All samples given to the live sink, in order. -/
def liveSamples (outs : List PipelineOutput) : List Sample :=
  outs.flatMap fun
    | .live samples => samples
    | _ => []

@[simp] theorem liveSamples_append (os os' : List PipelineOutput) :
    liveSamples (os ++ os') = liveSamples os ++ liveSamples os' := by
  simp [liveSamples]

namespace AudioPipeline

variable {ρ : Type}

/-- Follow a chunk into the utterance it belongs to, the latest one first in the list. -/
def noteChunk (ext : FrontEnd ρ) (chunk : List Sample) (capturedAt : TimePoint)
    (us : List Utterance) (p : AudioPipeline ρ) : List Utterance :=
  let (next, outs) := p.processChunk ext chunk capturedAt
  let given := liveSamples outs
  match (p.hear ext chunk capturedAt).2 with
  | .speechStarted =>
      { streamed := given, accumulated := next.utteranceBuffer.activeSamples } :: us
  | _ =>
      us.modifyHead (Utterance.extend given (if p.utteranceBuffer.recording = true then chunk else []))

def noteUtterances (ext : FrontEnd ρ) (us : List Utterance) (p : AudioPipeline ρ) :
    PipelineAction → List Utterance
  | .frame frame =>
      match p.prepare ext frame with
      | some (chunk, p, _) => if chunk = [] then us else p.noteChunk ext chunk frame.capturedAt us
      | none => us
  | _ => us

/-- The chunk of the onset stands in the stream twice. -/
def OnsetTwice (u : Utterance) : Prop :=
  ∃ prePad onset rest : List Sample, onset ≠ [] ∧
    u.streamed = prePad ++ onset ++ rest ∧ u.accumulated = prePad ++ rest

theorem OnsetTwice.not_same {u : Utterance} (h : OnsetTwice u) : ¬ u.SameOnBothPaths := by
  obtain ⟨prePad, onset, rest, honset, hstreamed, haccumulated⟩ := h
  intro hsame
  have hlength : u.streamed.length = u.accumulated.length := congrArg List.length hsame
  rw [hstreamed, haccumulated] at hlength
  simp only [List.length_append] at hlength
  exact honset (List.length_eq_zero_iff.mp (by omega))

/-- Between two frames the pipeline, its buffer and its endpointer agree on whether an
utterance is going on. -/
structure LiveInv (p : AudioPipeline ρ) (us : List Utterance) : Prop where
  sink : p.liveSink = true
  recording : p.utteranceBuffer.recording = p.inSpeech
  endpointer : p.endpointer.inSpeech = p.inSpeech
  twice : ∀ u ∈ us, OnsetTwice u

theorem liveSamples_onsetReplay {p : AudioPipeline ρ} (h : p.liveSink = true)
    (chunk : List Sample) :
    liveSamples (p.onsetReplay chunk) = p.utteranceBuffer.preBuffer ++ chunk := by
  simp only [onsetReplay, h, if_true]
  split
  next hnil => simp [liveSamples, hnil]
  · simp [liveSamples]

theorem OnsetTwice.extend {u : Utterance} (h : OnsetTwice u) (samples : List Sample) :
    OnsetTwice (u.extend samples samples) := by
  obtain ⟨prePad, onset, rest, honset, hstreamed, haccumulated⟩ := h
  refine ⟨prePad, onset, rest ++ samples, honset, ?_, ?_⟩
  · simp [Utterance.extend, hstreamed]
  · simp [Utterance.extend, haccumulated]

theorem onsetTwice_modifyHead {us : List Utterance} (h : ∀ u ∈ us, OnsetTwice u)
    (samples : List Sample) :
    ∀ u ∈ us.modifyHead (Utterance.extend samples samples), OnsetTwice u := by
  cases us with
  | nil => exact h
  | cons v us =>
      intro u hu
      rcases List.mem_cons.mp hu with rfl | hu
      · exact (h v List.mem_cons_self).extend samples
      · exact h u (List.mem_cons_of_mem v hu)

theorem liveSamples_offerSlice (slice : Option AudioSlice) (p : AudioPipeline ρ) :
    liveSamples (p.offerSlice slice).2 = [] := by
  unfold offerSlice
  split
  · rfl
  · split <;> rfl

theorem liveSamples_endUtterance (t : TimePoint) (p : AudioPipeline ρ) :
    liveSamples (p.endUtterance t).2 = [] := by
  show liveSamples ([_] ++ _) = []
  rw [liveSamples_append]
  exact liveSamples_offerSlice _ _

/-- What a chunk gives to the sink outside of an onset is what the buffer takes in. -/
theorem LiveInv.given_eq_taken {p : AudioPipeline ρ} {us : List Utterance} (hi : p.LiveInv us)
    (chunk : List Sample) :
    liveSamples (if p.inSpeech = true ∧ p.liveSink = true then [.live chunk] else []) =
      if p.utteranceBuffer.recording = true then chunk else [] := by
  rw [hi.recording]
  by_cases hspeech : p.inSpeech = true
  · simp [hspeech, hi.sink, liveSamples]
  · simp [hspeech, liveSamples]

theorem LiveInv.chunk {ext : FrontEnd ρ} {p : AudioPipeline ρ} {us : List Utterance}
    (hi : p.LiveInv us) {chunk : List Sample} (hchunk : chunk ≠ []) (t : TimePoint) :
    (p.processChunk ext chunk t).1.LiveInv (p.noteChunk ext chunk t us) := by
  have heard := hear_heard ext chunk t p
  have hgiven := hi.given_eq_taken chunk
  have hrecording := UtteranceBuffer.append_recording chunk p.utteranceBuffer
  obtain ⟨sink, recording, endpointer, twice⟩ := hi
  simp only [processChunk, noteChunk]
  cases hhear : p.hear ext chunk t with
  | mk q outcome =>
      rw [hhear] at heard
      obtain ⟨hbuffer, hspeech, hsink, houtcome⟩ := heard
      have hsink' : q.liveSink = true := hsink.trans sink
      rw [← hbuffer] at hrecording
      cases outcome with
      | none =>
          cases houtcome with
          | none hkeeps =>
              simp only [onOutcome, List.append_nil, hgiven]
              refine ⟨hsink', ?_, ?_, onsetTwice_modifyHead twice _⟩
              · rw [hrecording, hspeech, recording]
              · rw [hkeeps, hspeech, endpointer]
      | speechStarted =>
          cases houtcome with
          | speechStarted hquiet hstarts =>
              have hout : p.inSpeech = false := endpointer ▸ hquiet
              simp only [onOutcome, startUtterance, hout, Bool.false_eq_true, false_and, if_false,
                List.nil_append, liveSamples_append, liveSamples_onsetReplay hsink']
              refine ⟨hsink', rfl, hstarts, ?_⟩
              intro u hu
              rcases List.mem_cons.mp hu with rfl | hu
              · exact ⟨q.utteranceBuffer.preBuffer, chunk, [], hchunk, rfl, (List.append_nil _).symm⟩
              · exact twice u hu
      | falseStart =>
          cases houtcome with
          | falseStart hquiet hkeeps =>
              simp only [onOutcome, List.append_nil, hgiven]
              refine ⟨hsink', ?_, ?_, onsetTwice_modifyHead twice _⟩
              · rw [hrecording, hspeech, recording]
              · rw [hkeeps, hspeech, ← endpointer, hquiet]
      | speechEnded =>
          cases houtcome with
          | speechEnded _ hends =>
              have hended := UtteranceBuffer.onSpeechEnded_recording t q.utteranceBuffer
              simp only [onOutcome, liveSamples_append, liveSamples_endUtterance,
                List.append_nil, hgiven]
              have hoffered := offerSlice_offered (q.utteranceBuffer.onSpeechEnded t).2
                { q with
                  utteranceBuffer := (q.utteranceBuffer.onSpeechEnded t).1
                  inSpeech := false }
              refine ⟨?_, ?_, ?_, onsetTwice_modifyHead twice _⟩
              · exact hoffered.liveSink.trans hsink'
              · exact (congrArg _ hoffered.buffer).trans (hended.trans hoffered.inSpeech.symm)
              · exact (congrArg _ hoffered.endpointer).trans (hends.trans hoffered.inSpeech.symm)

/-! ## Runs -/

theorem LiveInv.step {ext : FrontEnd ρ} {p p' : AudioPipeline ρ} {us : List Utterance}
    {a : PipelineAction} (hi : p.LiveInv us) (h : p.step ext a = some p') :
    p'.LiveInv (p.noteUtterances ext us a) := by
  cases a with
  | frame frame =>
      simp only [AudioPipeline.step, processFrame] at h
      simp only [noteUtterances]
      cases hprepare : p.prepare ext frame with
      | none => simp [hprepare] at h
      | some prepared =>
          obtain ⟨chunk, q, outs⟩ := prepared
          obtain ⟨hendpointer, hbuffer, hspeech, hsink, -⟩ := prepare_eq_some hprepare
          have hq : q.LiveInv us := by
            obtain ⟨sink, recording, endpointer, twice⟩ := hi
            rw [← hsink] at sink
            rw [← hbuffer, ← hspeech] at recording
            rw [← hendpointer, ← hspeech] at endpointer
            exact ⟨sink, recording, endpointer, twice⟩
          simp only [hprepare] at h ⊢
          by_cases hchunk : chunk = []
          · rw [if_pos hchunk] at h ⊢
            cases h
            exact hq
          · rw [if_neg hchunk] at h ⊢
            cases h
            exact hq.chunk hchunk frame.capturedAt
  | setTestProbability probability =>
      cases h
      exact ⟨hi.sink, hi.recording, hi.endpointer, hi.twice⟩
  | release ref =>
      cases h
      exact ⟨hi.sink, hi.recording, hi.endpointer, hi.twice⟩

theorem create_liveInv (cfg : PipelineConfig) (aecActive : Bool) (frontEnd : ρ) :
    (create cfg aecActive frontEnd).setLiveAudioSink.LiveInv [] :=
  ⟨rfl, rfl, rfl, fun u hu => by cases hu⟩

/-- Of a pipeline that feeds a live sink, no utterance is the same on both paths. -/
theorem run_not_sameOnBothPaths {ext : FrontEnd ρ} {cfg : PipelineConfig} {aecActive : Bool}
    {frontEnd : ρ} {p : AudioPipeline ρ} {us : List Utterance} {acts : List PipelineAction}
    (hrun : run (watch (step ext) (noteUtterances ext))
      ((create cfg aecActive frontEnd).setLiveAudioSink, []) acts = some (p, us)) :
    ∀ u ∈ us, ¬ u.SameOnBothPaths := by
  have hi : p.LiveInv us :=
    run_preserves (fun w => w.1.LiveInv w.2)
      (fun w a w' hw hs => by
        obtain ⟨hstep, hnote⟩ := watch_eq_some.mp hs
        rw [hnote]
        exact hw.step hstep)
      hrun (create_liveInv cfg aecActive frontEnd)
  intro u hu
  exact (hi.twice u hu).not_same

/-- Frames as they are, and no detector. -/
def passThrough : FrontEnd Unit where
  soxr := fun samples r => (samples, r)
  apm := fun samples _ r => (samples, r)
  vad := none

/-- One sample takes a millisecond. -/
def slowRate : PipelineConfig where
  outputSampleRate := 1000
  endpointer := { minSpeechMs := 2, hangoverMs := 2 }
  prePaddingMs := 3

/-- Speech matures in the second frame and ends in the fifth. -/
def oneUtterance : List PipelineAction :=
  [.setTestProbability 1, .frame ⟨[1, 2], 0⟩, .frame ⟨[3, 4], 2⟩, .frame ⟨[5], 3⟩,
    .setTestProbability 0, .frame ⟨[6, 7], 5⟩, .frame ⟨[8, 9], 7⟩]

/-- The samples 3 and 4 are streamed twice. -/
def twiceThreeFour : Utterance where
  streamed := [2, 3, 4, 3, 4, 5, 6, 7, 8, 9]
  accumulated := [2, 3, 4, 5, 6, 7, 8, 9]

theorem oneUtterance_run : ∃ p, run (watch (step passThrough) (noteUtterances passThrough))
    ((create slowRate false ()).setLiveAudioSink, []) oneUtterance =
      some (p, [twiceThreeFour]) := by
  have hnoted : (run (watch (step passThrough) (noteUtterances passThrough))
      ((create slowRate false ()).setLiveAudioSink, []) oneUtterance).map Prod.snd =
        some [twiceThreeFour] := by
    decide +kernel
  obtain ⟨⟨p, us⟩, hrun, rfl⟩ := Option.map_eq_some_iff.mp hnoted
  exact ⟨p, hrun⟩

theorem run_not_sameOnBothPaths_oneUtterance : ¬ twiceThreeFour.SameOnBothPaths := by
  obtain ⟨p, hrun⟩ := oneUtterance_run
  exact run_not_sameOnBothPaths hrun twiceThreeFour List.mem_cons_self

theorem oneUtterance_streamed_twice :
    ∃ p us, run (watch (step passThrough) (noteUtterances passThrough))
      ((create slowRate false ()).setLiveAudioSink, []) oneUtterance = some (p, us) ∧
        us = [twiceThreeFour] ∧ ¬ ∀ u ∈ us, u.SameOnBothPaths := by
  obtain ⟨p, hrun⟩ := oneUtterance_run
  exact ⟨p, _, hrun, rfl, fun hsame => absurd (hsame _ List.mem_cons_self) (by decide)⟩

end AudioPipeline

end Acva.Audio

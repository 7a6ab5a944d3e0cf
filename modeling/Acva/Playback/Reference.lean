import Acva.Audio.Loopback
import Acva.Playback.Engine

/-! # The echo reference

What the loopback sink was given is what the device got, exactly if no callback
runs out of audio: the two exits that fill the rest of a buffer with silence
return before the tap. The sink keeps no gap for such a buffer, so all that
follows stands too early on its frame axis.
-/

namespace Acva.Playback

open Acva.Audio Acva.Runs

namespace AudioOutput

/-- The sink got the concatenation of the buffers that the device got, and however it was
fed its frame axis is as long as what was emitted. -/
structure ReferenceIsEmitted (p : AudioOutput) : Prop where
  samples : p.engine.tapped.flatten = p.engine.emitted.flatten
  frames : ∀ (sink : LoopbackSink) (fed : List (List Sample × Int)),
    fed.map Prod.fst = p.engine.tapped →
      (sink.onEmittedAll fed).totalFrames =
        sink.totalFrames + p.engine.emitted.flatten.length

theorem referenceIsEmitted_iff {p : AudioOutput} :
    p.ReferenceIsEmitted ↔ p.engine.tapped.flatten = p.engine.emitted.flatten := by
  refine ⟨fun h => h.samples, fun h => ⟨h, fun sink fed hfed => ?_⟩⟩
  rw [sink.onEmittedAll_totalFrames, hfed, h]

/-- With room left in the buffer the callback finds more audio: the gate is open for the
active turn it has read, and the queue holds a chunk of that turn. -/
def FindsAudio (p : AudioOutput) : OutputAction → Prop
  | .audio =>
      match p.engine.pc with
      | .gate _ _ turn => p.engine.gateOpen turn (p.queue.pendingSamplesFor turn) = true
      | .pop _ _ turn => p.queue.ofTurn turn ≠ []
      | _ => True
  | _ => True

instance (p : AudioOutput) (a : OutputAction) : Decidable (p.FindsAudio a) := by
  unfold FindsAudio
  split
  · split <;> infer_instance
  · infer_instance

/-- Past the head of the loop the buffer has room; and the sink is behind the device unless
both got the same. -/
structure TapInv (p : AudioOutput) : Prop where
  sink : p.engine.loopbackSink = true
  room : match p.engine.pc with
    | .gate frames out _ => out.length < frames
    | .pop frames out _ => out.length < frames
    | _ => True
  behind : p.engine.tapped.flatten = p.engine.emitted.flatten ∨
    p.engine.tapped.flatten.length < p.engine.emitted.flatten.length

/-! ## One step -/

/-- What a step adds to the two logs. -/
inductive TapStep (p : AudioOutput) (a : OutputAction) (p' : AudioOutput) : Prop
  /-- No buffer is handed out. -/
  | keeps (hfinds : p.FindsAudio a) (htapped : p'.engine.tapped = p.engine.tapped)
      (hemitted : p'.engine.emitted = p.engine.emitted)
  /-- A full buffer goes to both. -/
  | taps (out : List Sample) (hfinds : p.FindsAudio a)
      (htapped : p'.engine.tapped = p.engine.tapped ++ [out])
      (hemitted : p'.engine.emitted = p.engine.emitted ++ [out])
  /-- A buffer with a silent end goes to the device alone. -/
  | misses (out : List Sample) (hfinds : ¬ p.FindsAudio a) (hpos : 0 < out.length)
      (htapped : p'.engine.tapped = p.engine.tapped)
      (hemitted : p'.engine.emitted = p.engine.emitted ++ [out])

theorem silence_pos {frames : Nat} {out : List Sample} (h : out.length < frames) :
    0 < (out ++ List.replicate (frames - out.length) (0 : Sample)).length := by
  rw [List.length_append, List.length_replicate]
  omega

theorem step_tap {p p' : AudioOutput} {a : OutputAction} (hi : p.TapInv)
    (h : p.step a = some p') :
    TapStep p a p' ∧ p'.engine.loopbackSink = true ∧ (match p'.engine.pc with
      | .gate frames out _ => out.length < frames
      | .pop frames out _ => out.length < frames
      | _ => True) := by
  have hsink := hi.sink
  have hroom := hi.room
  cases a with
  | audio =>
      obtain ⟨engine, queue, hcase, rfl⟩ := audio_eq_some h
      cases hcase with
      | finish frames out hpc hfull =>
          refine ⟨.taps out (by simp [FindsAudio, hpc]) ?_ rfl, hsink, trivial⟩
          exact if_pos hsink
      | retire frames out hpc hroom hend =>
          have hretired := p.engine.retire_retired
          refine ⟨.keeps (by simp [FindsAudio, hpc]) hretired.tapped hretired.emitted, ?_, hroom⟩
          exact hretired.loopbackSink.trans hsink
      | copy frames out hpc hroom hmore =>
          exact ⟨.keeps (by simp [FindsAudio, hpc]) rfl rfl, hsink, trivial⟩
      | pass frames out turn hpc hgate =>
          rw [hpc] at hroom
          rw [PlaybackEngine.prime_eq]
          exact ⟨.keeps (by simpa [FindsAudio, hpc] using hgate) rfl rfl, hsink, hroom⟩
      | hold frames out turn hpc hgate =>
          rw [hpc] at hroom
          refine ⟨.misses _ ?_ (silence_pos hroom) rfl rfl, hsink, trivial⟩
          simp [FindsAudio, hpc, hgate]
      | underrun frames out turn _ hpc hpop =>
          rw [hpc] at hroom
          refine ⟨.misses _ ?_ (silence_pos hroom) rfl rfl, hsink, trivial⟩
          simp [FindsAudio, hpc, (PlaybackQueue.dequeueActive_eq_none hpop).1]
      | take frames out turn chunk _ hpc hpop =>
          refine ⟨.keeps ?_ rfl rfl, hsink, trivial⟩
          simp [FindsAudio, hpc, (PlaybackQueue.dequeueActive_eq_some hpop).2.1]
  | render frames =>
      simp only [step] at h
      split at h
      · cases h
        exact ⟨.keeps trivial rfl rfl, hsink, trivial⟩
      · cases h
  | enqueue chunk =>
      cases h
      exact ⟨.keeps trivial rfl rfl, hsink, hroom⟩
  | invalidateBefore next =>
      cases h
      exact ⟨.keeps trivial rfl rfl, hsink, hroom⟩
  | clear =>
      cases h
      exact ⟨.keeps trivial rfl rfl, hsink, hroom⟩
  | setActive turn =>
      cases h
      exact ⟨.keeps trivial rfl rfl, hsink, hroom⟩
  | relay =>
      cases h
      exact ⟨.keeps trivial rfl rfl, hsink, hroom⟩

theorem TapStep.tapped_eq_iff {p p' : AudioOutput} {a : OutputAction} (h : TapStep p a p')
    (heq : p.engine.tapped.flatten = p.engine.emitted.flatten) :
    p'.engine.tapped.flatten = p'.engine.emitted.flatten ↔ p.FindsAudio a := by
  cases h with
  | keeps hfinds htapped hemitted =>
      rw [htapped, hemitted]
      exact iff_of_true heq hfinds
  | taps out hfinds htapped hemitted =>
      rw [htapped, hemitted, List.flatten_append, List.flatten_append, heq]
      exact iff_of_true rfl hfinds
  | misses out hfinds hpos htapped hemitted =>
      rw [htapped, hemitted, List.flatten_append, heq]
      refine iff_of_false (fun hsame => ?_) hfinds
      have hlen := congrArg List.length hsame
      simp only [List.length_append, List.length_flatten, List.map_cons, List.map_nil,
        List.sum_cons, List.sum_nil] at hlen
      omega

/-- Once behind, the sink stays behind. -/
theorem TapStep.behind {p p' : AudioOutput} {a : OutputAction} (h : TapStep p a p')
    (hlt : p.engine.tapped.flatten.length < p.engine.emitted.flatten.length) :
    p'.engine.tapped.flatten.length < p'.engine.emitted.flatten.length := by
  cases h with
  | keeps _ htapped hemitted => rwa [htapped, hemitted]
  | taps out _ htapped hemitted =>
      rw [htapped, hemitted, List.flatten_append, List.flatten_append, List.length_append,
        List.length_append]
      omega
  | misses out _ _ htapped hemitted =>
      rw [htapped, hemitted, List.flatten_append, List.length_append]
      omega

theorem TapInv.step {p p' : AudioOutput} {a : OutputAction} (hi : p.TapInv)
    (h : p.step a = some p') : p'.TapInv := by
  obtain ⟨htap, hsink, hroom⟩ := step_tap hi h
  refine ⟨hsink, hroom, ?_⟩
  rcases hi.behind with hsame | hlt
  · cases htap with
    | keeps _ htapped hemitted => exact .inl (by rw [htapped, hemitted, hsame])
    | taps out _ htapped hemitted =>
        exact .inl (by rw [htapped, hemitted, List.flatten_append, List.flatten_append, hsame])
    | misses out _ hpos htapped hemitted =>
        right
        rw [htapped, hemitted, List.flatten_append, List.length_append, hsame]
        simpa using hpos
  · exact .inr (htap.behind hlt)

/-! ## Runs -/

/-- The reference is the emitted audio in the end of a run exactly if each callback that
looked for more audio found some. -/
theorem run_referenceIsEmitted_iff {p p' : AudioOutput} {acts : List OutputAction}
    (hsink : p.engine.loopbackSink = true) (hidle : p.engine.pc = .idle)
    (heq : p.engine.tapped.flatten = p.engine.emitted.flatten)
    (hrun : run step p acts = some p') :
    p'.ReferenceIsEmitted ↔ Always step FindsAudio p acts := by
  have hi : p.TapInv := ⟨hsink, by rw [hidle]; trivial, .inl heq⟩
  rw [referenceIsEmitted_iff]
  refine run_iff_always TapInv
    (fun p => p.engine.tapped.flatten = p.engine.emitted.flatten) ?_ ?_ ?_ hrun hi heq
  · intro p a p' hi hs
    exact hi.step hs
  · intro p a p' hi hsame hs
    exact (step_tap hi hs).1.tapped_eq_iff hsame
  · intro p a p' hi hnot hs hsame
    have hlt := (step_tap hi hs).1.behind (hi.behind.resolve_left hnot)
    rw [hsame] at hlt
    exact Nat.lt_irrefl _ hlt

/-- Two samples are queued for the active turn. -/
def twoSamples : AudioOutput where
  queue := { chunks := [{ turn := 1, samples := [5, 6] }] }
  activeTurn := 1

/-- A callback that finds the chunk and copies what fits. -/
def fillFromChunk (frames : Nat) : List OutputAction :=
  [.render frames, .audio, .audio, .audio, .audio, .audio]

theorem run_referenceIsEmitted_iff_twoSamples :
    ∃ p', run step twoSamples (fillFromChunk 2) = some p' ∧ p'.ReferenceIsEmitted := by
  obtain ⟨p', hp'⟩ : ∃ p', run step twoSamples (fillFromChunk 2) = some p' :=
    ⟨(run step twoSamples (fillFromChunk 2)).get (by decide), (Option.some_get _).symm⟩
  exact ⟨p', hp', (run_referenceIsEmitted_iff rfl rfl rfl hp').mpr (by decide)⟩

/-- The chunk ends in the middle of the buffer, and the queue is empty. -/
def underrun : List OutputAction := fillFromChunk 4 ++ [.audio, .audio]

/-- A buffer of four frames gets the two samples and silence; the sink gets nothing. -/
theorem underrun_not_tapped :
    ∃ p', run step twoSamples underrun = some p' ∧ p'.engine.emitted = [[5, 6, 0, 0]] ∧
      p'.engine.tapped = [] ∧ ¬ p'.ReferenceIsEmitted := by
  obtain ⟨p', hp', hemitted, htapped⟩ : ∃ p', run step twoSamples underrun = some p' ∧
      p'.engine.emitted = [[5, 6, 0, 0]] ∧ p'.engine.tapped = [] := by
    refine ⟨(run step twoSamples underrun).get (by decide), ?_, by decide, by decide⟩
    exact (Option.some_get _).symm
  refine ⟨p', hp', hemitted, htapped, fun h => ?_⟩
  have hsame := referenceIsEmitted_iff.mp h
  rw [hemitted, htapped] at hsame
  cases hsame

end AudioOutput

end Acva.Playback

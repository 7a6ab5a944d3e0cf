import Acva.Dialogue.TtsBridge.Accounting
import Acva.Orchestrator.BargeInSilence

/-! # A cancelled turn is not synthesized

Once `on_user_interrupted` has returned for a turn, no sentence of the turn is to
be handed to the submit function. The bridge remembers the cancelled turn by the
token in its map only, which an `LlmStarted` replaces and an `LlmFinished` erases;
a later sentence then gets a live token. And between the look at the token and the
submission the I/O thread does not look again.
-/

namespace Acva.Orchestrator

open Acva.Audio Acva.Dialogue Acva.Playback Acva.Runs

/-- `on_user_interrupted` has returned for a turn; `submitted` jobs were submitted before. -/
structure Interruption where
  turn : TurnId
  submitted : Nat
deriving DecidableEq, Repr

namespace TtsStack

variable {ρ : Type}

def noteInterruption (is : List Interruption) (s : TtsStack ρ) (a : TtsAction) :
    List Interruption :=
  match a with
  | .handler =>
      match s.bridge.handler with
      | .cancelling turn [] => is ++ [⟨turn, s.bridge.submitted.length⟩]
      | _ => is
  | _ => is

/-- No job submitted after an interruption is of its turn. -/
def NeverSubmitted (s : TtsStack ρ) (is : List Interruption) : Prop :=
  ∀ i ∈ is, ∀ job ∈ s.bridge.submitted.drop i.submitted, job.sentence.turn ≠ i.turn

/-- The job between the look at its token and its submission. -/
def aboutToSubmit : TtsIoPc ρ → Option Job
  | .starting job => some job
  | _ => none

/-- If `on_user_interrupted` returns next, no job of its turn is about to be submitted. -/
def NotStarting (b : TtsBridge ρ) : HandlerPc → Prop
  | .cancelling turn [] => ∀ job ∈ aboutToSubmit b.io, job.sentence.turn ≠ turn
  | _ => True

/-- The condition on one step: a sentence of an interrupted turn finds a cancelled token, and
an interruption does not return while a job of its turn is about to be submitted. -/
def StaysCancelled (w : TtsStack ρ × List Interruption) : TtsAction → Prop
  | .event (.llmSentence e) => e.turn ∈ w.2.map (·.turn) → HoldsCancelled e.turn w.1.bridge
  | .handler => NotStarting w.1.bridge w.1.bridge.handler
  | _ => True

instance (b : TtsBridge ρ) : ∀ pc, Decidable (NotStarting b pc)
  | .cancelling turn [] =>
      inferInstanceAs (Decidable (∀ job ∈ aboutToSubmit b.io, job.sentence.turn ≠ turn))
  | .cancelling _ (_ :: _) => isTrue trivial
  | .idle => isTrue trivial

instance (w : TtsStack ρ × List Interruption) (a : TtsAction) : Decidable (StaysCancelled w a) := by
  cases a with
  | event e => cases e <;> first | exact isTrue trivial | exact inferInstanceAs (Decidable (_ → _))
  | handler => exact inferInstanceAs (Decidable (NotStarting _ _))
  | _ => exact isTrue trivial

/-! ## The bridge after the interruption -/

/-- No job of the turn will pass a look at its token again. -/
structure Stopped (i : Interruption) (b : TtsBridge ρ) : Prop where
  pending : ∀ job ∈ b.pending, job.sentence.turn ≠ i.turn
  cancelled : ∀ job, b.io.job = some job → job.sentence.turn = i.turn →
    b.pool.isCancelled job.cancel = true
  notStarting : ∀ job ∈ aboutToSubmit b.io, job.sentence.turn ≠ i.turn
  recorded : i.submitted ≤ b.submitted.length
  submitted : ∀ job ∈ b.submitted.drop i.submitted, job.sentence.turn ≠ i.turn

/-- What the I/O thread does to the submissions. -/
inductive SubmissionStep (b b' : TtsBridge ρ) : Prop
  | quiet (hsubmitted : b'.submitted = b.submitted) (hnone : aboutToSubmit b'.io = none)
  | looks (job : Job) (hsubmitted : b'.submitted = b.submitted)
      (hnext : aboutToSubmit b'.io = some job) (hjob : b.io.job = some job)
      (hlive : b.pool.isCancelled job.cancel = false)
  | submits (job : Job) (hsubmitted : b'.submitted = b.submitted ++ [job])
      (hnext : aboutToSubmit b.io = some job) (hnone : aboutToSubmit b'.io = none)

theorem submissionStep_of_io {soxr : Soxr ρ} {q q' : PlaybackQueue} {b b' : TtsBridge ρ}
    (h : TtsIoStep soxr q b b' q') : SubmissionStep b b' := by
  cases h with
  | begin job hpc hlive => exact .looks job rfl rfl (by rw [hpc]; rfl) hlive
  | submit job hpc => exact .submits job rfl (by rw [hpc]; rfl) rfl
  | _ => exact .quiet rfl rfl

theorem submissionStep_of_submit {soxr : Soxr ρ} {e : SubmitEvent} {b b' : TtsBridge ρ}
    (h : b.onSubmit soxr e = some b') : SubmissionStep b b' := by
  cases TtsBridge.onSubmit_eq_some h with
  | ignores samples job synth hpc hskip => exact .quiet rfl (by rw [hpc]; rfl)
  | finishes job synth hpc => exact .quiet rfl (by rw [hpc]; rfl)
  | _ => exact .quiet rfl rfl

theorem Stopped.hand {i : Interruption} {q q' : PlaybackQueue} {b b' : TtsBridge ρ}
    (hs : Stopped i b) (h : HandStep q b b' q') (hsub : SubmissionStep b b')
    (hpool : b'.pool = b.pool) : Stopped i b' := by
  obtain ⟨hpending, hcancelled⟩ := h.held (fun job => job.sentence.turn = i.turn)
    (fun job => b.pool.isCancelled job.cancel = true) hs.pending hs.cancelled
  have hdead := hpool ▸ hcancelled
  cases hsub with
  | quiet hsubmitted hnone =>
      constructor
      · exact hpending
      · exact hdead
      · intro job hjob
        rw [hnone] at hjob
        cases hjob
      · rw [hsubmitted]
        exact hs.recorded
      · rw [hsubmitted]
        exact hs.submitted
  | looks job hsubmitted hnext hjob hlive =>
      constructor
      · exact hpending
      · exact hdead
      · intro job' hstarts hturn
        rw [hnext] at hstarts
        cases hstarts
        have hgone := hs.cancelled job hjob hturn
        rw [hlive] at hgone
        cases hgone
      · rw [hsubmitted]
        exact hs.recorded
      · rw [hsubmitted]
        exact hs.submitted
  | submits job hsubmitted hnext hnone =>
      constructor
      · exact hpending
      · exact hdead
      · intro job' hjob
        rw [hnone] at hjob
        cases hjob
      · rw [hsubmitted, List.length_append]
        exact Nat.le_add_right_of_le hs.recorded
      · rw [hsubmitted, List.drop_append_of_le_length hs.recorded]
        intro job' hjob'
        rcases List.mem_append.mp hjob' with hold | hnew
        · exact hs.submitted job' hold
        · rw [List.mem_singleton.mp hnew]
          exact hs.notStarting job hnext

/-- A step of another thread that adds no job of the turn. -/
theorem Stopped.mono {i : Interruption} {b b' : TtsBridge ρ} (hs : Stopped i b)
    (h : LeavesIo b b') (hsubmitted : b'.submitted = b.submitted)
    (hpending : ∀ job ∈ b'.pending, job ∈ b.pending ∨ job.sentence.turn ≠ i.turn) :
    Stopped i b' := by
  constructor
  · intro job hjob
    rcases hpending job hjob with hold | hother
    · exact hs.pending job hold
    · exact hother
  · intro job hjob hturn
    exact h.pool _ (hs.cancelled job (h.io ▸ hjob) hturn)
  · rw [h.io]
    exact hs.notStarting
  · rw [hsubmitted]
    exact hs.recorded
  · rw [hsubmitted]
    exact hs.submitted

/-! ## Runs -/

/-- What holds of the bridge in any run, and what its interruptions add. -/
structure CancelledInv (w : TtsStack ρ × List Interruption) : Prop where
  bridge : BridgeInv w.1.bridge w.1.output.queue {}
  stopped : ∀ i ∈ w.2, Stopped i w.1.bridge

variable {s : TtsStack ρ} {is : List Interruption}

theorem CancelledInv.event {e : Event} {b' : TtsBridge ρ} (hi : CancelledInv (s, is))
    (hok : StaysCancelled (s, is) (.event e)) (h : s.bridge.onEvent e = some b') :
    CancelledInv (s.onBridge b', is) := by
  constructor
  · refine hi.bridge.event ?_ h
    cases e with
    | llmSentence e => exact fun hmem => absurd hmem List.not_mem_nil
    | _ => trivial
  · intro i hmem
    obtain ⟨-, hcase, hleaves⟩ := TtsBridge.onEvent_step h
    apply (hi.stopped i hmem).mono hleaves (TtsBridge.onEvent_entry h).1.submitted
    apply eventStep_addsNone hcase
    rintro sentence rfl hturn
    rw [← hturn]
    exact hok (List.mem_map.mpr ⟨i, hmem, hturn.symm⟩)

theorem CancelledInv.handler {b' : TtsBridge ρ} {q' : PlaybackQueue}
    (hi : CancelledInv (s, is)) (hok : StaysCancelled (s, is) .handler)
    (h : s.bridge.handlerStep s.output.queue = some (b', q')) :
    CancelledInv (s.onQueue (b', q'), noteInterruption is s .handler) := by
  obtain ⟨turn, tok, rest, hpc, rfl, rfl⟩ | ⟨turn, hpc, rfl, rfl⟩ :=
    TtsBridge.handlerStep_eq_some h
  · have hnote : noteInterruption is s .handler = is := by simp only [noteInterruption, hpc]
    have hleaves : LeavesIo s.bridge
        { s.bridge with pool := s.bridge.pool.cancel tok, handler := .cancelling turn rest } :=
      ⟨rfl, rfl, fun t ht => TokenPool.isCancelled_cancel.mpr (.inr ht)⟩
    rw [hnote]
    refine ⟨?_, fun i hmem => (hi.stopped i hmem).mono hleaves rfl fun job hjob => .inl hjob⟩
    refine hi.bridge.mono hleaves (fun _ _ job hjob => .inl hjob) (fun t toCancel ht => ?_)
      fun c hc => hc
    cases ht
    exact (hi.bridge.hushing turn (tok :: rest) hpc).cancel
  · have hhush := hi.bridge.hushing turn [] hpc
    have hleaves : LeavesIo s.bridge { s.bridge with handler := .idle } :=
      ⟨rfl, rfl, fun t ht => ht⟩
    have hkeep : BridgeInv { s.bridge with handler := .idle } s.output.queue.clear.2 {} :=
      hi.bridge.mono hleaves (fun _ _ job hjob => .inl hjob) (fun t toCancel ht => by cases ht)
        fun c hc => by cases hc
    refine ⟨hkeep, fun i hmem => ?_⟩
    simp only [noteInterruption, hpc] at hmem
    rcases List.mem_append.mp hmem with hmem | hmem
    · exact (hi.stopped i hmem).mono hleaves rfl fun job hjob => .inl hjob
    · have hstarting : NotStarting s.bridge (.cancelling turn []) := hpc ▸ hok
      rw [List.mem_singleton.mp hmem]
      constructor
      · exact hhush.pending
      · intro job hjob hturn
        exact (hhush.cancelled job hjob hturn).resolve_left List.not_mem_nil
      · exact hstarting
      · exact Nat.le_refl _
      · intro job hjob
        have hjob : job ∈ s.bridge.submitted.drop s.bridge.submitted.length := hjob
        rw [List.drop_length] at hjob
        cases hjob

/-- A step of the I/O thread, or of the submit function. -/
theorem CancelledInv.hand {b' : TtsBridge ρ} {q' : PlaybackQueue} {o' : AudioOutput}
    (hi : CancelledInv (s, is)) (h : HandStep s.output.queue s.bridge b' q')
    (hsub : SubmissionStep s.bridge b') (hpool : b'.pool = s.bridge.pool)
    (hhandler : b'.handler = s.bridge.handler) (hqueue : o'.queue = q') :
    CancelledInv ({ bridge := b', output := o' }, is) := by
  constructor
  · show BridgeInv b' o'.queue {}
    rw [hqueue]
    exact hi.bridge.hand h hpool hhandler
  · exact fun i hmem => (hi.stopped i hmem).hand h hsub hpool

/-- A step that leaves the bridge's threads and its jobs where they are. -/
theorem CancelledInv.keeps {b' : TtsBridge ρ} (hi : CancelledInv (s, is))
    (hleaves : LeavesIo s.bridge b') (hpending : b'.pending = s.bridge.pending)
    (hhandler : b'.handler = s.bridge.handler) (hsubmitted : b'.submitted = s.bridge.submitted) :
    CancelledInv (s.onBridge b', is) := by
  constructor
  · apply hi.bridge.mono hleaves
    · exact fun _ _ job hjob => .inl (hpending ▸ hjob)
    · intro t toCancel ht
      have hhush := hi.bridge.hushing t toCancel (hhandler ▸ ht)
      refine ⟨hpending ▸ hhush.pending, fun job hjob hturn => ?_⟩
      exact (hhush.cancelled job (hleaves.io ▸ hjob) hturn).imp id (hleaves.pool _)
    · exact fun c hc => hc
  · intro i hmem
    exact (hi.stopped i hmem).mono hleaves hsubmitted fun job hjob => .inl (hpending ▸ hjob)

theorem CancelledInv.step {soxr : Soxr ρ} {w w' : TtsStack ρ × List Interruption} {a : TtsAction}
    (hi : CancelledInv w) (hok : StaysCancelled w a)
    (h : watch (step soxr) noteInterruption w a = some w') : CancelledInv w' := by
  obtain ⟨s, is⟩ := w
  obtain ⟨s', is'⟩ := w'
  obtain ⟨hs, hnote⟩ := watch_eq_some.mp h
  simp only at hs hnote
  subst hnote
  cases a with
  | event e =>
      obtain ⟨b', hb, rfl⟩ := Option.map_eq_some_iff.mp hs
      exact hi.event hok hb
  | handler =>
      obtain ⟨⟨b', q'⟩, hb, rfl⟩ := Option.map_eq_some_iff.mp hs
      exact hi.handler hok hb
  | io =>
      obtain ⟨⟨b', q'⟩, hb, rfl⟩ := Option.map_eq_some_iff.mp hs
      have hcase := TtsBridge.ioStep_eq_some hb
      exact hi.hand hcase.hand (submissionStep_of_io hcase) hcase.frame.1 hcase.frame.2 rfl
  | submit e =>
      obtain ⟨b', hb, rfl⟩ := Option.map_eq_some_iff.mp hs
      obtain ⟨hhand, hpool, hhandler⟩ := TtsBridge.onSubmit_hand (q := s.output.queue) hb
      exact hi.hand hhand (submissionStep_of_submit hb) hpool hhandler rfl
  | unsubscribe =>
      obtain ⟨b', hb, rfl⟩ := Option.map_eq_some_iff.mp hs
      obtain ⟨-, rfl⟩ := TtsBridge.unsubscribe_eq_some hb
      exact hi.keeps ⟨rfl, rfl, fun _ h => h⟩ rfl rfl rfl
  | stop =>
      obtain ⟨b', hb, rfl⟩ := Option.map_eq_some_iff.mp hs
      obtain ⟨hleaves, hpending, hhandler⟩ := TtsBridge.stop_leavesIo hb
      refine hi.keeps hleaves hpending hhandler ?_
      obtain ⟨-, rfl⟩ := TtsBridge.stop_eq_some hb
      rfl
  | output a =>
      obtain ⟨-, o', -, rfl⟩ := step_output_eq_some hs
      refine ⟨⟨hi.bridge.inFlight, hi.bridge.hushing, fun moment hm => ?_⟩, hi.stopped⟩
      exact absurd hm List.not_mem_nil

theorem initial_cancelledInv (deviceRate maxQueueChunks prefillTargetSamples : Nat) :
    CancelledInv ((initial deviceRate maxQueueChunks prefillTargetSamples : TtsStack ρ), []) :=
  ⟨(initial_silenceInv deviceRate maxQueueChunks prefillTargetSamples).bridge,
    fun _ hmem => absurd hmem List.not_mem_nil⟩

/-- A turn that was interrupted is not synthesized any more, in every run whose steps keep to
the condition. -/
theorem run_neverSubmitted {soxr : Soxr ρ} {deviceRate maxQueueChunks prefillTargetSamples : Nat}
    {acts : List TtsAction}
    (hrun : run (watch (step soxr) noteInterruption)
      (initial deviceRate maxQueueChunks prefillTargetSamples, []) acts = some (s, is))
    (hok : Always (watch (step soxr) noteInterruption) StaysCancelled
      (initial deviceRate maxQueueChunks prefillTargetSamples, []) acts) :
    s.NeverSubmitted is := by
  have hinv : CancelledInv (s, is) :=
    run_invariant (fun _ _ _ hi hok hs => hi.step hok hs) hrun hok
      (initial_cancelledInv deviceRate maxQueueChunks prefillTargetSamples)
  intro i hmem
  exact (hinv.stopped i hmem).submitted

/-- The first sentence is being synthesized when the turn is interrupted, and what `late` says
comes after that. -/
def interruptedTurn (late : List TtsAction) : List TtsAction :=
  [.event (.llmStarted { turn := 1 }), .event (.llmSentence { turn := 1 }), .io, .io, .io,
    .event (.llmSentence { turn := 1, seq := 1 }), .event (.userInterrupted { turn := 1 }),
    .handler, .handler, .handler, .submit .returns, .io, .io, .io] ++ late

theorem run_neverSubmitted_lateSentence :
    ∃ s is, run (watch (step passThrough) noteInterruption) (initial 24000 0 0, [])
        (interruptedTurn [.event (.llmSentence { turn := 1, seq := 2 }),
          .event (.llmFinished { turn := 1, cancelled := true })]) = some (s, is) ∧
      is = [⟨1, 1⟩] ∧ s.NeverSubmitted is := by
  obtain ⟨w, hw, his⟩ : ∃ w, run (watch (step passThrough) noteInterruption)
        (initial 24000 0 0, []) (interruptedTurn [.event (.llmSentence { turn := 1, seq := 2 }),
          .event (.llmFinished { turn := 1, cancelled := true })]) = some w ∧
      w.2 = [⟨1, 1⟩] := by
    refine ⟨(run (watch (step passThrough) noteInterruption) (initial 24000 0 0, [])
      (interruptedTurn [.event (.llmSentence { turn := 1, seq := 2 }),
        .event (.llmFinished { turn := 1, cancelled := true })])).get (by decide), ?_, by decide⟩
    exact (Option.some_get _).symm
  exact ⟨w.1, w.2, hw, his, run_neverSubmitted hw (by decide)⟩

/-- The end of the stream erases the cancelled token, and the next sentence of the turn is
submitted. -/
theorem sentenceAfterFinish_submitted :
    ∃ s is, run (watch (step passThrough) noteInterruption) (initial 24000 0 0, [])
        (interruptedTurn [.event (.llmFinished { turn := 1, cancelled := true }),
          .event (.llmSentence { turn := 1, seq := 2 }), .io, .io, .io]) = some (s, is) ∧
      is = [⟨1, 1⟩] ∧ ¬ s.NeverSubmitted is := by
  obtain ⟨w, hw, his, hlate⟩ : ∃ w, run (watch (step passThrough) noteInterruption)
        (initial 24000 0 0, []) (interruptedTurn
          [.event (.llmFinished { turn := 1, cancelled := true }),
            .event (.llmSentence { turn := 1, seq := 2 }), .io, .io, .io]) = some w ∧
      w.2 = [⟨1, 1⟩] ∧ { sentence := { turn := 1, seq := 2 }, cancel := 1 } ∈
        w.1.bridge.submitted.drop 1 := by
    refine ⟨(run (watch (step passThrough) noteInterruption) (initial 24000 0 0, [])
      (interruptedTurn [.event (.llmFinished { turn := 1, cancelled := true }),
        .event (.llmSentence { turn := 1, seq := 2 }), .io, .io, .io])).get (by decide), ?_,
      by decide, by decide⟩
    exact (Option.some_get _).symm
  refine ⟨w.1, w.2, hw, his, fun hnever => ?_⟩
  rw [his] at hnever
  exact hnever _ List.mem_cons_self _ hlate rfl

end TtsStack

end Acva.Orchestrator

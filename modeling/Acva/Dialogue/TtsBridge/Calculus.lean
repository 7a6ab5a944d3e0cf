import Acva.Dialogue.TtsBridge.Machine

/-! # The cases of a bridge step

One inversion rule for each thread, and what the job in hand is while the I/O
thread moves: its token stays in flight, and samples get into hand only past a
look at a token that was not cancelled.
-/

namespace Acva.Dialogue

open Acva.Audio Acva.Playback

variable {ρ : Type}

/-- What one step of the I/O thread does, by where it stands. -/
inductive TtsIoStep (soxr : Soxr ρ) (q : PlaybackQueue) (b : TtsBridge ρ) :
    TtsBridge ρ → PlaybackQueue → Prop
  | take (job : Job) (rest : List Job) (hpc : b.io = .idle) (hpending : b.pending = job :: rest) :
      TtsIoStep soxr q b
        { b with pending := rest, inFlight := some job.cancel, io := .taken job } q
  | exit (hpc : b.io = .idle) (hpending : b.pending = []) (hstop : b.stopping = true) :
      TtsIoStep soxr q b { b with io := .exited } q
  | skip (job : Job) (hpc : b.io = .taken job)
      (hcancelled : b.pool.isCancelled job.cancel = true) :
      TtsIoStep soxr q b { b with cancelled := b.cancelled + 1, io := .returned } q
  | begin (job : Job) (hpc : b.io = .taken job)
      (hlive : b.pool.isCancelled job.cancel = false) :
      TtsIoStep soxr q b { b with io := .starting job } q
  | submit (job : Job) (hpc : b.io = .starting job) :
      TtsIoStep soxr q b
        { b with
          published := b.published ++
            [.ttsStarted { turn := job.sentence.turn, seq := job.sentence.seq }]
          submitted := b.submitted ++ [job]
          io := .submitting job {} } q
  | enqueue (job : Job) (synth : Synth ρ) (samples : List Sample)
      (hpc : b.io = .enqueuing job synth samples) :
      TtsIoStep soxr q b
        { b with
          published := b.published ++
            if (q.enqueue (audioChunk job samples)).1 = true then
              [.ttsAudioChunk (ttsAudioChunk job samples)] else []
          io := .submitting job synth }
        (q.enqueue (audioChunk job samples)).2
  | abandon (job : Job) (synth : Synth ρ) (hpc : b.io = .submitted job synth)
      (hcancelled : b.pool.isCancelled job.cancel = true) :
      TtsIoStep soxr q b { b with io := .closing job synth.gotError } q
  | finish (job : Job) (synth : Synth ρ) (hpc : b.io = .submitted job synth)
      (hlive : b.pool.isCancelled job.cancel = false) :
      TtsIoStep soxr q b { b with io := .enqueuingEnd job synth.gotError (synth.tail soxr) } q
  | enqueueEnd (job : Job) (gotError : Bool) (tail : List Sample)
      (hpc : b.io = .enqueuingEnd job gotError tail) (hroom : q.full = false) :
      TtsIoStep soxr q b
        { b with
          published := b.published ++
            if tail ≠ [] then [.ttsAudioChunk (ttsAudioChunk job tail)] else []
          io := .closing job gotError }
        (q.append (endChunk job tail))
  | full (job : Job) (gotError : Bool) (tail : List Sample)
      (hpc : b.io = .enqueuingEnd job gotError tail) (hfull : q.full = true) :
      TtsIoStep soxr q b { b with io := .waiting job gotError tail } q
  | giveUp (job : Job) (gotError : Bool) (tail : List Sample)
      (hpc : b.io = .waiting job gotError tail)
      (hcancelled : b.pool.isCancelled job.cancel = true) :
      TtsIoStep soxr q b { b with io := .closing job gotError } q
  | again (job : Job) (gotError : Bool) (tail : List Sample)
      (hpc : b.io = .waiting job gotError tail)
      (hlive : b.pool.isCancelled job.cancel = false) :
      TtsIoStep soxr q b { b with io := .enqueuingEnd job gotError tail } q
  | closeCancelled (job : Job) (gotError : Bool) (hpc : b.io = .closing job gotError)
      (hcancelled : b.pool.isCancelled job.cancel = true) :
      TtsIoStep soxr q b { b with cancelled := b.cancelled + 1, io := .returned } q
  | closeErrored (job : Job) (hpc : b.io = .closing job true)
      (hlive : b.pool.isCancelled job.cancel = false) :
      TtsIoStep soxr q b { b with errored := b.errored + 1, io := .returned } q
  | close (job : Job) (hpc : b.io = .closing job false)
      (hlive : b.pool.isCancelled job.cancel = false) :
      TtsIoStep soxr q b
        { b with
          synthesized := b.synthesized + 1
          published := b.published ++
            [.ttsFinished { turn := job.sentence.turn, seq := job.sentence.seq }]
          io := .returned } q
  | release (hpc : b.io = .returned) : TtsIoStep soxr q b { b with inFlight := none, io := .idle } q

theorem TtsBridge.ioStep_eq_some {soxr : Soxr ρ} {q q' : PlaybackQueue} {b b' : TtsBridge ρ}
    (h : b.ioStep soxr q = some (b', q')) : TtsIoStep soxr q b b' q' := by
  unfold ioStep at h
  split at h
  next hpc =>
    split at h
    next job rest hpending =>
      cases h
      exact .take job rest hpc hpending
    next hpending =>
      split at h
      next hstop =>
        cases h
        exact .exit hpc hpending hstop
      next => cases h
  next job hpc =>
    split at h
    next hcancelled =>
      cases h
      exact .skip job hpc hcancelled
    next hlive =>
      cases h
      exact .begin job hpc (Bool.not_eq_true _ ▸ hlive)
  next job hpc =>
    cases h
    exact .submit job hpc
  next => cases h
  next job synth samples hpc =>
    cases h
    exact .enqueue job synth samples hpc
  next job synth hpc =>
    split at h
    next hcancelled =>
      cases h
      exact .abandon job synth hpc hcancelled
    next hlive =>
      cases h
      exact .finish job synth hpc (Bool.not_eq_true _ ▸ hlive)
  next job gotError tail hpc =>
    cases hfull : q.full with
    | true =>
        simp only [PlaybackQueue.enqueuePoll, hfull, ↓reduceIte, Bool.false_eq_true] at h
        cases h
        exact .full job gotError tail hpc hfull
    | false =>
        simp only [PlaybackQueue.enqueuePoll, hfull, ↓reduceIte, Bool.false_eq_true] at h
        cases h
        exact .enqueueEnd job gotError tail hpc hfull
  next job gotError tail hpc =>
    split at h
    next hcancelled =>
      cases h
      exact .giveUp job gotError tail hpc hcancelled
    next hlive =>
      cases h
      exact .again job gotError tail hpc (Bool.not_eq_true _ ▸ hlive)
  next job gotError hpc =>
    split at h
    next hcancelled =>
      cases h
      exact .closeCancelled job gotError hpc hcancelled
    next hlive =>
      cases gotError with
      | true =>
          cases h
          exact .closeErrored job hpc (Bool.not_eq_true _ ▸ hlive)
      | false =>
          cases h
          exact .close job hpc (Bool.not_eq_true _ ▸ hlive)
  next hpc =>
    cases h
    exact .release hpc
  next => cases h

/-- What a callback of the submit function does, and what its return does. -/
inductive TtsSubmitStep (soxr : Soxr ρ) (b : TtsBridge ρ) : SubmitEvent → TtsBridge ρ → Prop
  | formats (rate : Int) (job : Job) (synth : Synth ρ) (hpc : b.io = .submitting job synth) :
      TtsSubmitStep soxr b (.onFormat rate)
        { b with io := .submitting job (synth.onFormat soxr b.deviceRate rate) }
  | ignores (samples : List Sample) (job : Job) (synth : Synth ρ)
      (hpc : b.io = .submitting job synth)
      (hskip : synth.gotError = true ∨ b.pool.isCancelled job.cancel = true) :
      TtsSubmitStep soxr b (.onAudio samples) b
  | holds (samples : List Sample) (job : Job) (synth synth' : Synth ρ)
      (hpc : b.io = .submitting job synth) (hheard : ¬synth.gotError = true)
      (hout : synth.resample soxr samples = ([], synth')) :
      TtsSubmitStep soxr b (.onAudio samples) { b with io := .submitting job synth' }
  | speaks (samples : List Sample) (job : Job) (synth synth' : Synth ρ) (out : List Sample)
      (hpc : b.io = .submitting job synth) (hheard : ¬synth.gotError = true)
      (hlive : b.pool.isCancelled job.cancel = false)
      (hout : synth.resample soxr samples = (out, synth')) (hsome : out ≠ []) :
      TtsSubmitStep soxr b (.onAudio samples) { b with io := .enqueuing job synth' out }
  | finishes (job : Job) (synth : Synth ρ) (hpc : b.io = .submitting job synth) :
      TtsSubmitStep soxr b .onFinished b
  | fails (job : Job) (synth : Synth ρ) (hpc : b.io = .submitting job synth) :
      TtsSubmitStep soxr b .onError
        { b with io := .submitting job { synth with gotError := true } }
  | returns (job : Job) (synth : Synth ρ) (hpc : b.io = .submitting job synth) :
      TtsSubmitStep soxr b .returns { b with io := .submitted job synth }

theorem TtsBridge.onSubmit_eq_some {soxr : Soxr ρ} {e : SubmitEvent} {b b' : TtsBridge ρ}
    (h : b.onSubmit soxr e = some b') : TtsSubmitStep soxr b e b' := by
  unfold onSubmit at h
  split at h
  next job synth hpc =>
    cases e with
    | onFormat rate =>
        cases h
        exact .formats rate job synth hpc
    | onAudio samples =>
        cases h
        unfold onAudio
        split
        next hskip => exact .ignores samples job synth hpc hskip
        next hheard =>
          obtain ⟨hnoError, hlive⟩ := not_or.mp hheard
          cases hout : synth.resample soxr samples with
          | mk out synth' =>
              dsimp only
              split
              next hempty => exact .holds samples job synth synth' hpc hnoError (hempty ▸ hout)
              next hsome =>
                exact .speaks samples job synth synth' out hpc hnoError (by simpa using hlive)
                  hout hsome
    | onFinished =>
        cases h
        exact .finishes job synth hpc
    | onError =>
        cases h
        exact .fails job synth hpc
    | returns =>
        cases h
        exact .returns job synth hpc
  next => cases h

/-! ## The job in hand -/

namespace TtsIoPc

/-- The job that is not yet through. -/
def job : TtsIoPc ρ → Option Job
  | .taken job => some job
  | .starting job => some job
  | .submitting job _ => some job
  | .enqueuing job _ _ => some job
  | .submitted job _ => some job
  | .enqueuingEnd job _ _ => some job
  | .waiting job _ _ => some job
  | .closing job _ => some job
  | _ => none

/-- The samples that are past the look at the token. -/
def inHand : TtsIoPc ρ → List Sample
  | .enqueuing _ _ samples => samples
  | .enqueuingEnd _ _ tail => tail
  | _ => []

end TtsIoPc

/-- What a step of the I/O thread does to the job in hand and to the queue. -/
inductive HandStep (q : PlaybackQueue) (b b' : TtsBridge ρ) (q' : PlaybackQueue) : Prop
  | takes (job : Job) (hpending : b.pending = job :: b'.pending) (hjob : b'.io.job = some job)
      (hhand : b'.io.inHand = []) (hinFlight : b'.inFlight = some job.cancel) (hqueue : q' = q)
  | keeps (job : Job) (hpending : b'.pending = b.pending) (hjob : b.io.job = some job)
      (hjob' : b'.io.job = some job) (hinFlight : b'.inFlight = b.inFlight)
      (hhand : b'.io.inHand = [] ∨ b.pool.isCancelled job.cancel = false)
      (hqueue : ∀ c ∈ q'.chunks, c ∈ q.chunks ∨
        c.turn = job.sentence.turn ∧ c.samples = b.io.inHand)
  | drops (hpending : b'.pending = b.pending) (hjob : b'.io.job = none) (hqueue : q' = q)

/-- What is true of every job of a kind that is not pending stays true of the job in hand. -/
theorem HandStep.held {q q' : PlaybackQueue} {b b' : TtsBridge ρ} (h : HandStep q b b' q')
    (Kind Held : Job → Prop) (hpending : ∀ job ∈ b.pending, ¬ Kind job)
    (hhand : ∀ job, b.io.job = some job → Kind job → Held job) :
    (∀ job ∈ b'.pending, ¬ Kind job) ∧
      ∀ job, b'.io.job = some job → Kind job → Held job := by
  cases h with
  | takes job hrest hjob _ _ _ =>
      rw [hrest] at hpending
      refine ⟨fun j hj => hpending j (List.mem_cons_of_mem _ hj), fun j hj hkind => ?_⟩
      rw [hjob] at hj
      exact absurd (Option.some.inj hj ▸ hkind) (hpending job List.mem_cons_self)
  | keeps job hrest hjob hjob' _ _ _ =>
      refine ⟨hrest ▸ hpending, fun j hj hkind => ?_⟩
      exact hhand j (hjob.trans (hjob'.symm.trans hj)) hkind
  | drops hrest hnone _ =>
      refine ⟨hrest ▸ hpending, fun j hj => ?_⟩
      rw [hnone] at hj
      cases hj

theorem mem_append_chunk {q : PlaybackQueue} {chunk c : AudioChunk}
    (h : c ∈ (q.append chunk).chunks) : c ∈ q.chunks ∨ c = chunk := by
  rcases List.mem_append.mp h with h | h
  · exact .inl h
  · exact .inr (List.mem_singleton.mp h)

theorem mem_enqueue_chunk {q : PlaybackQueue} {chunk c : AudioChunk}
    (h : c ∈ (q.enqueue chunk).2.chunks) : c ∈ q.chunks ∨ c = chunk := by
  unfold PlaybackQueue.enqueue at h
  split at h
  · exact .inl h
  · exact mem_append_chunk h

theorem TtsIoStep.hand {soxr : Soxr ρ} {q q' : PlaybackQueue} {b b' : TtsBridge ρ}
    (h : TtsIoStep soxr q b b' q') : HandStep q b b' q' := by
  cases h with
  | take job rest hpc hpending => exact .takes job hpending rfl rfl rfl rfl
  | exit hpc hpending hstop => exact .drops rfl rfl rfl
  | skip job hpc hcancelled => exact .drops rfl rfl rfl
  | begin job hpc hlive =>
      exact .keeps job rfl (by rw [hpc]; rfl) rfl rfl (.inl rfl) fun c hc => .inl hc
  | submit job hpc =>
      exact .keeps job rfl (by rw [hpc]; rfl) rfl rfl (.inl rfl) fun c hc => .inl hc
  | enqueue job synth samples hpc =>
      refine .keeps job rfl (by rw [hpc]; rfl) rfl rfl (.inl rfl) fun c hc => ?_
      rcases mem_enqueue_chunk hc with hc | rfl
      · exact .inl hc
      · exact .inr ⟨rfl, by rw [hpc]; rfl⟩
  | abandon job synth hpc hcancelled =>
      exact .keeps job rfl (by rw [hpc]; rfl) rfl rfl (.inl rfl) fun c hc => .inl hc
  | finish job synth hpc hlive =>
      exact .keeps job rfl (by rw [hpc]; rfl) rfl rfl (.inr hlive) fun c hc => .inl hc
  | enqueueEnd job gotError tail hpc hroom =>
      refine .keeps job rfl (by rw [hpc]; rfl) rfl rfl (.inl rfl) fun c hc => ?_
      rcases mem_append_chunk hc with hc | rfl
      · exact .inl hc
      · exact .inr ⟨rfl, by rw [hpc]; rfl⟩
  | full job gotError tail hpc hfull =>
      exact .keeps job rfl (by rw [hpc]; rfl) rfl rfl (.inl rfl) fun c hc => .inl hc
  | giveUp job gotError tail hpc hcancelled =>
      exact .keeps job rfl (by rw [hpc]; rfl) rfl rfl (.inl rfl) fun c hc => .inl hc
  | again job gotError tail hpc hlive =>
      exact .keeps job rfl (by rw [hpc]; rfl) rfl rfl (.inr hlive) fun c hc => .inl hc
  | closeCancelled job gotError hpc hcancelled => exact .drops rfl rfl rfl
  | closeErrored job hpc hlive => exact .drops rfl rfl rfl
  | close job hpc hlive => exact .drops rfl rfl rfl
  | release hpc => exact .drops rfl rfl rfl

/-- The I/O thread makes and cancels no token, and leaves the other thread where it is. -/
theorem TtsIoStep.frame {soxr : Soxr ρ} {q q' : PlaybackQueue} {b b' : TtsBridge ρ}
    (h : TtsIoStep soxr q b b' q') : b'.pool = b.pool ∧ b'.handler = b.handler := by
  cases h <;> exact ⟨rfl, rfl⟩

namespace TtsBridge

theorem onSubmit_hand {soxr : Soxr ρ} {q : PlaybackQueue} {e : SubmitEvent} {b b' : TtsBridge ρ}
    (h : b.onSubmit soxr e = some b') :
    HandStep q b b' q ∧ b'.pool = b.pool ∧ b'.handler = b.handler := by
  have hkeeps : ∀ {job : Job} {synth : Synth ρ} {pc : TtsIoPc ρ}, b.io = .submitting job synth →
      pc.job = some job → (pc.inHand = [] ∨ b.pool.isCancelled job.cancel = false) →
      HandStep q b { b with io := pc } q := by
    intro job synth pc hpc hjob hhand
    exact .keeps job rfl (by rw [hpc]; rfl) hjob rfl hhand fun c hc => .inl hc
  have hsame : ∀ {job : Job} {synth : Synth ρ}, b.io = .submitting job synth →
      HandStep q b b q := by
    intro job synth hpc
    exact hkeeps hpc (by rw [hpc]; rfl) (.inl (by rw [hpc]; rfl))
  cases onSubmit_eq_some h with
  | formats rate job synth hpc => exact ⟨hkeeps hpc rfl (.inl rfl), rfl, rfl⟩
  | ignores samples job synth hpc hskip => exact ⟨hsame hpc, rfl, rfl⟩
  | holds samples job synth synth' hpc hheard hout => exact ⟨hkeeps hpc rfl (.inl rfl), rfl, rfl⟩
  | speaks samples job synth synth' out hpc hheard hlive hout hsome =>
      exact ⟨hkeeps hpc rfl (.inr hlive), rfl, rfl⟩
  | finishes job synth hpc => exact ⟨hsame hpc, rfl, rfl⟩
  | fails job synth hpc => exact ⟨hkeeps hpc rfl (.inl rfl), rfl, rfl⟩
  | returns job synth hpc => exact ⟨hkeeps hpc rfl (.inl rfl), rfl, rfl⟩

end TtsBridge

/-! ## The subscriber thread -/

/-- What an event does to the jobs and to the thread that handles it. -/
inductive EventStep (b b' : TtsBridge ρ) : Event → Prop
  | accepts (e : LlmSentence) (tok : TokenRef)
      (hlive : ∀ dead, b.tokens e.turn = some dead → b.pool.isCancelled dead = false)
      (hpending : b'.pending = b.pending ++ [{ sentence := e, cancel := tok }])
      (hhandler : b'.handler = .idle) : EventStep b b' (.llmSentence e)
  | interrupts (e : UserInterrupted) (toCancel : List TokenRef)
      (hinFlight : ∀ tok, b.inFlight = some tok → tok ∈ toCancel)
      (hpending : b'.pending = b.pending.filter fun job => job.sentence.turn ≠ e.turn)
      (hhandler : b'.handler = .cancelling e.turn toCancel) : EventStep b b' (.userInterrupted e)
  | passes (e : Event) (hpending : b'.pending = b.pending) (hhandler : b'.handler = .idle) :
      EventStep b b' e

/-- The other thread is left where it is, and no token comes back to life. -/
structure LeavesIo (b b' : TtsBridge ρ) : Prop where
  io : b'.io = b.io
  inFlight : b'.inFlight = b.inFlight
  pool : ∀ tok, b.pool.isCancelled tok = true → b'.pool.isCancelled tok = true

namespace TtsBridge

theorem onLlmSentence_step (e : LlmSentence) {b : TtsBridge ρ} (hidle : b.handler = .idle) :
    EventStep b (b.onLlmSentence e) (.llmSentence e) ∧ LeavesIo b (b.onLlmSentence e) := by
  unfold onLlmSentence tokenFor
  cases htok : b.tokens e.turn with
  | none =>
      dsimp only
      split
      · exact ⟨.passes _ rfl hidle, rfl, rfl, fun _ h => h⟩
      · exact ⟨.accepts e _ (fun dead hdead => by rw [htok] at hdead; cases hdead) rfl hidle,
          rfl, rfl, fun _ h => h⟩
  | some tok =>
      dsimp only
      split
      next => exact ⟨.passes _ rfl hidle, rfl, rfl, fun _ h => h⟩
      next hlive =>
        refine ⟨.accepts e tok (fun dead hdead => ?_) rfl hidle, rfl, rfl, fun _ h => h⟩
        rw [htok] at hdead
        rw [← Option.some.inj hdead]
        simpa using hlive

theorem onUserInterrupted_step (e : UserInterrupted) (b : TtsBridge ρ) :
    EventStep b (b.onUserInterrupted e) (.userInterrupted e) ∧
      LeavesIo b (b.onUserInterrupted e) := by
  unfold onUserInterrupted tokenToCancel
  cases b.tokens e.turn with
  | none =>
      refine ⟨.interrupts e _ (fun tok htok => ?_) rfl rfl, rfl, rfl, fun tok htok => ?_⟩
      · exact List.mem_append_right _ (Option.mem_toList.mpr htok)
      · exact TokenPool.isCancelled_cancel.mpr (.inr htok)
  | some tok =>
      refine ⟨.interrupts e _ (fun tok htok => ?_) rfl rfl, rfl, rfl, fun _ h => h⟩
      exact List.mem_append_right _ (Option.mem_toList.mpr htok)

theorem onEvent_step {e : Event} {b b' : TtsBridge ρ} (h : b.onEvent e = some b') :
    b.handler = .idle ∧ EventStep b b' e ∧ LeavesIo b b' := by
  unfold onEvent at h
  split at h
  next hready =>
    obtain ⟨-, hidle⟩ := hready
    refine ⟨hidle, ?_⟩
    split at h
    next e =>
      cases h
      exact ⟨.passes _ rfl hidle, rfl, rfl, fun _ h => h⟩
    next e =>
      cases h
      exact onLlmSentence_step e hidle
    next e =>
      cases h
      exact ⟨.passes _ rfl hidle, rfl, rfl, fun _ h => h⟩
    next e =>
      cases h
      exact onUserInterrupted_step e b
    next =>
      cases h
      exact ⟨.passes _ rfl hidle, rfl, rfl, fun _ h => h⟩
  next => cases h

/-- Inside `on_user_interrupted` the tokens are cancelled one by one, then the queue is
cleared. -/
theorem handlerStep_eq_some {q q' : PlaybackQueue} {b b' : TtsBridge ρ}
    (h : b.handlerStep q = some (b', q')) :
    (∃ turn tok rest, b.handler = .cancelling turn (tok :: rest) ∧
        b' = { b with pool := b.pool.cancel tok, handler := .cancelling turn rest } ∧ q' = q) ∨
      ∃ turn, b.handler = .cancelling turn [] ∧ b' = { b with handler := .idle } ∧
        q' = q.clear.2 := by
  unfold handlerStep at h
  split at h
  next => cases h
  next turn tok rest hpc =>
    cases h
    exact .inl ⟨turn, tok, rest, hpc, rfl, rfl⟩
  next turn hpc =>
    cases h
    exact .inr ⟨turn, hpc, rfl, rfl⟩

/-! ## `stop` -/

theorem unsubscribe_eq_some {b b' : TtsBridge ρ} (h : b.unsubscribe = some b') :
    b.handler = .idle ∧ b' = { b with subscribed := false } := by
  unfold unsubscribe at h
  split at h
  next hidle =>
    cases h
    exact ⟨hidle, rfl⟩
  next => cases h

theorem stop_eq_some {b b' : TtsBridge ρ} (h : b.stop = some b') :
    b.subscribed = false ∧ b' =
      { b with
        pool := b.inFlight.toList.foldl (fun pool tok => pool.cancel tok) b.pool
        stopping := true } := by
  unfold stop at h
  split at h
  next => cases h
  next hgone =>
    cases h
    exact ⟨by simpa using hgone, rfl⟩

theorem stop_leavesIo {b b' : TtsBridge ρ} (h : b.stop = some b') :
    LeavesIo b b' ∧ b'.pending = b.pending ∧ b'.handler = b.handler := by
  obtain ⟨-, rfl⟩ := stop_eq_some h
  refine ⟨⟨rfl, rfl, fun tok htok => ?_⟩, rfl, rfl⟩
  cases b.inFlight with
  | none => exact htok
  | some tok' => exact TokenPool.isCancelled_cancel.mpr (.inr htok)

end TtsBridge

end Acva.Dialogue

import Acva.Orchestrator.SpokenTurns
import Acva.Tts.Submission

/-! # From the response to the device

The submit function that the stack gives the bridge is the client's. While the bridge's I/O thread
is inside it, the call's own moves and libcurl's take turns with everybody else; each callback is
a step of the bridge. So what the device is given of a turn comes from the responses that the
server sent for its sentences.
-/

namespace Acva.Orchestrator

open Acva.Audio Acva.Config Acva.Dialogue Acva.Playback Acva.Runs Acva.Stretches Acva.Tts

variable {ρ : Type}

/-! ## The wired stack -/

structure Synthesizer (ρ : Type) where
  stack : TtsStack ρ
  /-- Of the last job that was submitted. -/
  call : SubmitCall := {}

inductive SynthAction
  | stack (a : TtsAction)
  /-- The call of the submit function, or libcurl inside it. -/
  | submit (move : SubmitMove)
deriving DecidableEq, Repr

namespace Synthesizer

/-- The I/O thread enters the submit function with its next step. -/
def startsCall : TtsIoPc ρ → Bool
  | .starting _ => true
  | _ => false

def enters (s : TtsStack ρ) : TtsAction → Bool
  | .io => startsCall s.bridge.io
  | _ => false

/-- The submit function makes its move. -/
def moved (cfg : TtsConfig) (s : Synthesizer ρ) (move : SubmitMove) :
    Option (SubmitCall × Option SubmitEvent) :=
  match s.stack.bridge.io with
  | .submitting job _ =>
      s.call.step cfg job.sentence (s.stack.bridge.pool.isCancelled job.cancel) move
  | _ => none

def step (cfg : TtsConfig) (soxr : Soxr ρ) (s : Synthesizer ρ) :
    SynthAction → Option (Synthesizer ρ)
  | .stack (.submit _) => none
  | .stack a =>
      (s.stack.step soxr a).map fun stack =>
        { stack := stack, call := if enters s.stack a = true then {} else s.call }
  | .submit move =>
      match s.moved cfg move with
      | none => none
      | some (call, none) => some { s with call := call }
      | some (call, some e) =>
          (s.stack.step soxr (.submit e)).map fun stack => { stack := stack, call := call }

def initial (deviceRate maxQueueChunks prefillTargetSamples : Nat) : Synthesizer ρ where
  stack := .initial deviceRate maxQueueChunks prefillTargetSamples

/-! ## What is written down -/

/-- For each job that is through, `answers` has the call that was made for it; a job that was
cancelled before has none. -/
structure SynthLedger where
  spoken : SpokenLedger := {}
  answers : List (Option SubmitCall) := []
deriving DecidableEq, Repr

/-- What the stack does in a step. -/
def stackAction (cfg : TtsConfig) (s : Synthesizer ρ) : SynthAction → Option TtsAction
  | .stack a => some a
  | .submit move => (s.moved cfg move).bind fun r => r.2.map .submit

def answerAt (c : SubmitCall) : TtsIoPc ρ → Option SubmitCall
  | .taken _ => none
  | _ => some c

def noteSynth (cfg : TtsConfig) (soxr : Soxr ρ) (l : SynthLedger) (s : Synthesizer ρ)
    (a : SynthAction) : SynthLedger :=
  match s.stackAction cfg a with
  | none => l
  | some b =>
      { spoken := TtsStack.noteSpoken soxr l.spoken s.stack b
        answers := l.answers ++
          match s.stack.step soxr b with
          | none => []
          | some stack => (endedBy s.stack.bridge stack.bridge).map fun _ =>
              answerAt s.call s.stack.bridge.io }

end Synthesizer

/-! ## The invariant -/

/-- A job that is through was cancelled before it was submitted, or its callbacks are those of its
call. -/
def AnsweredBy (cfg : TtsConfig) (pool : TokenPool) (j : SpokenJob) : Option SubmitCall → Prop
  | none => j.callbacks = [] ∧ pool.isCancelled j.job.cancel = true
  | some c => ∃ failure, c.pc = .reported failure ∧
      c.Answered cfg j.job.sentence j.callbacks failure

/-- What has been called back for the job in hand. -/
def CallAt (cfg : TtsConfig) (c : SubmitCall) (callbacks : List SubmitEvent) :
    TtsIoPc ρ → Prop
  | .taken _ => callbacks = []
  | .starting _ => callbacks = []
  | .submitting job _ => c.Told cfg job.sentence callbacks
  | .enqueuing job _ _ => c.Told cfg job.sentence callbacks
  | .submitted job _ => ∃ failure, c.pc = .reported failure ∧
      c.Answered cfg job.sentence callbacks failure
  | .enqueuingEnd job _ _ => ∃ failure, c.pc = .reported failure ∧
      c.Answered cfg job.sentence callbacks failure
  | .waiting job _ _ => ∃ failure, c.pc = .reported failure ∧
      c.Answered cfg job.sentence callbacks failure
  | .closing job _ => ∃ failure, c.pc = .reported failure ∧
      c.Answered cfg job.sentence callbacks failure
  | _ => True

theorem AnsweredBy.mono {cfg : TtsConfig} {pool pool' : TokenPool} {j : SpokenJob} {o : Option SubmitCall}
    (h : AnsweredBy cfg pool j o)
    (hmono : ∀ tok, pool.isCancelled tok = true → pool'.isCancelled tok = true) :
    AnsweredBy cfg pool' j o := by
  cases o with
  | none => exact ⟨h.1, hmono _ h.2⟩
  | some c => exact h

namespace Synthesizer

variable {cfg : TtsConfig} {soxr : Soxr ρ} {deviceRate : Nat} {s s' : Synthesizer ρ}
  {l : SynthLedger}

structure SynthInv (cfg : TtsConfig) (soxr : Soxr ρ) (deviceRate : Nat)
    (w : Synthesizer ρ × SynthLedger) : Prop where
  spoken : TtsStack.SpokenInv soxr deviceRate (w.1.stack, w.2.spoken)
  answered : List.Forall₂ (AnsweredBy cfg w.1.stack.bridge.pool) w.2.spoken.speech.spoken
    w.2.answers
  call : CallAt cfg w.1.call w.2.spoken.speech.callbacks w.1.stack.bridge.io

/-! ## The steps of the bridge -/

theorem endedBy_of_job {b b' : TtsBridge ρ} {job : Job} (h : b'.io.job = some job) :
    endedBy b b' = [] := by
  rw [endedBy, h]
  exact if_neg (Option.some_ne_none job)

theorem endedBy_of_none {b b' : TtsBridge ρ} (h : b.io.job = none) : endedBy b b' = [] := by
  rw [endedBy, h]
  exact ite_self []

theorem endedBy_of_same {b b' : TtsBridge ρ} (h : b'.io = b.io) : endedBy b b' = [] := by
  cases hjob : b.io.job with
  | none => exact endedBy_of_none hjob
  | some job => exact endedBy_of_job (by rw [h]; exact hjob)

theorem endedBy_of_through {b b' : TtsBridge ρ} {job : Job} (hjob : b.io.job = some job)
    (hnone : b'.io.job = none) : endedBy b b' = [job] := by
  rw [endedBy, if_pos hnone, hjob]
  rfl

/-- The I/O thread takes a job, hands it over and closes it. -/
theorem callAt_io {b b' : TtsBridge ρ} {q q' : PlaybackQueue} {c : SubmitCall}
    {callbacks : List SubmitEvent} (hc : CallAt cfg c callbacks b.io)
    (h : TtsIoStep soxr q b b' q') :
    CallAt cfg (if startsCall b.io = true then {} else c)
        (if b.io.job = none then [] else callbacks) b'.io ∧
      List.Forall₂ (AnsweredBy cfg b.pool)
        ((endedBy b b').map fun job => (⟨job, callbacks⟩ : SpokenJob))
        ((endedBy b b').map fun _ => answerAt c b.io) := by
  -- the job stays in hand
  have hkeeps : ∀ {pc : TtsIoPc ρ} {job : Job}, b.io = pc → pc.job = some job →
      b'.io.job = some job → CallAt cfg (if startsCall pc = true then {} else c) callbacks b'.io →
      CallAt cfg (if startsCall b.io = true then {} else c)
          (if b.io.job = none then [] else callbacks) b'.io ∧
        List.Forall₂ (AnsweredBy cfg b.pool)
          ((endedBy b b').map fun job => (⟨job, callbacks⟩ : SpokenJob))
          ((endedBy b b').map fun _ => answerAt c b.io) := by
    intro pc job hpc hjob hjob' hat
    rw [endedBy_of_job hjob', hpc, hjob, if_neg (Option.some_ne_none job)]
    exact ⟨hat, .nil⟩
  -- the job is through
  have hends : ∀ {pc : TtsIoPc ρ} {job : Job}, b.io = pc → pc.job = some job →
      b'.io = .returned → AnsweredBy cfg b.pool ⟨job, callbacks⟩ (answerAt c pc) →
      CallAt cfg (if startsCall b.io = true then {} else c)
          (if b.io.job = none then [] else callbacks) b'.io ∧
        List.Forall₂ (AnsweredBy cfg b.pool)
          ((endedBy b b').map fun job => (⟨job, callbacks⟩ : SpokenJob))
          ((endedBy b b').map fun _ => answerAt c b.io) := by
    intro pc job hpc hjob hpc' hanswer
    have hin : b.io.job = some job := by rw [hpc]; exact hjob
    have hout : b'.io.job = none := by rw [hpc']; rfl
    rw [endedBy_of_through hin hout, hpc, hpc']
    exact ⟨trivial, .cons hanswer .nil⟩
  cases h with
  | take job rest hpc hpending =>
      rw [endedBy_of_none (by rw [hpc]; rfl), hpc]
      exact ⟨rfl, .nil⟩
  | exit hpc hpending hstop =>
      rw [endedBy_of_none (by rw [hpc]; rfl), hpc]
      exact ⟨trivial, .nil⟩
  | skip job hpc hcancelled =>
      rw [hpc] at hc
      exact hends hpc rfl rfl ⟨hc, hcancelled⟩
  | begin job hpc hlive =>
      rw [hpc] at hc
      exact hkeeps hpc rfl rfl hc
  | submit job hpc =>
      rw [hpc] at hc
      exact hkeeps hpc rfl rfl ⟨rfl, hc⟩
  | enqueue job synth samples hpc =>
      rw [hpc] at hc
      exact hkeeps hpc rfl rfl hc
  | abandon job synth hpc hcancelled =>
      rw [hpc] at hc
      exact hkeeps hpc rfl rfl hc
  | finish job synth hpc hlive =>
      rw [hpc] at hc
      exact hkeeps hpc rfl rfl hc
  | enqueueEnd job gotError tail hpc hroom =>
      rw [hpc] at hc
      exact hkeeps hpc rfl rfl hc
  | full job gotError tail hpc hfull =>
      rw [hpc] at hc
      exact hkeeps hpc rfl rfl hc
  | giveUp job gotError tail hpc hcancelled =>
      rw [hpc] at hc
      exact hkeeps hpc rfl rfl hc
  | again job gotError tail hpc hlive =>
      rw [hpc] at hc
      exact hkeeps hpc rfl rfl hc
  | closeCancelled job gotError hpc hcancelled =>
      rw [hpc] at hc
      exact hends hpc rfl rfl hc
  | closeErrored job hpc hlive =>
      rw [hpc] at hc
      exact hends hpc rfl rfl hc
  | close job hpc hlive =>
      rw [hpc] at hc
      exact hends hpc rfl rfl hc
  | release hpc =>
      rw [endedBy_of_none (by rw [hpc]; rfl), hpc]
      exact ⟨trivial, .nil⟩

/-- A callback leaves the thread in the submit function or on its way to the queue; the return
takes it out. -/
theorem callAt_submit {b b' : TtsBridge ρ} {job : Job} {synth : Synth ρ} {c : SubmitCall}
    {callbacks : List SubmitEvent} {e : SubmitEvent} (hpc : b.io = .submitting job synth)
    (h : TtsSubmitStep soxr b e b')
    (hc : (e ≠ .returns ∧ c.Told cfg job.sentence callbacks) ∨
      e = .returns ∧ ∃ failure, c.pc = .reported failure ∧
        c.Answered cfg job.sentence callbacks failure) :
    CallAt cfg c callbacks b'.io ∧ b'.io.job = some job := by
  cases h with
  | formats rate job' synth' hpc' =>
      obtain ⟨rfl, rfl⟩ : job = job' ∧ synth = synth' := by simpa [hpc] using hpc'
      exact ⟨(hc.resolve_right fun hr => by cases hr.1).2, rfl⟩
  | ignores samples job' synth' hpc' hskip =>
      rw [hpc]
      exact ⟨(hc.resolve_right fun hr => by cases hr.1).2, rfl⟩
  | holds samples job' synth' synth'' hpc' hheard hout =>
      obtain ⟨rfl, rfl⟩ : job = job' ∧ synth = synth' := by simpa [hpc] using hpc'
      exact ⟨(hc.resolve_right fun hr => by cases hr.1).2, rfl⟩
  | speaks samples job' synth' synth'' out hpc' hheard hlive hout hsome =>
      obtain ⟨rfl, rfl⟩ : job = job' ∧ synth = synth' := by simpa [hpc] using hpc'
      exact ⟨(hc.resolve_right fun hr => by cases hr.1).2, rfl⟩
  | finishes job' synth' hpc' =>
      rw [hpc]
      exact ⟨(hc.resolve_right fun hr => by cases hr.1).2, rfl⟩
  | fails job' synth' hpc' =>
      obtain ⟨rfl, rfl⟩ : job = job' ∧ synth = synth' := by simpa [hpc] using hpc'
      exact ⟨(hc.resolve_right fun hr => by cases hr.1).2, rfl⟩
  | returns job' synth' hpc' =>
      obtain ⟨rfl, rfl⟩ : job = job' ∧ synth = synth' := by simpa [hpc] using hpc'
      exact ⟨(hc.resolve_left fun hl => hl.1 rfl).2, rfl⟩

/-! ## The steps of the stack -/

/-- What an entry of the ledger is made of. -/
theorem noteSpoken_speech {t t' : TtsStack ρ} {a : TtsAction} (l : SpokenLedger)
    (h : t.step soxr a = some t') :
    (TtsStack.noteSpoken soxr l t a).speech.spoken =
        l.speech.spoken ++ (endedBy t.bridge t'.bridge).map (fun job => ⟨job, l.speech.callbacks⟩) ∧
      (TtsStack.noteSpoken soxr l t a).speech.callbacks =
        if t.bridge.io.job = none then []
        else l.speech.callbacks ++ callbackOf (TtsStack.hostAction t'.output.queue a) := by
  unfold TtsStack.noteSpoken
  rw [h]
  exact ⟨rfl, rfl⟩

/-- A step of the stack keeps the invariant if the call is where the thread then stands, and if
the job that is through has its answer. -/
theorem SynthInv.stackStep {t' : TtsStack ρ} {a : TtsAction} {c : SubmitCall}
    {now : List (Option SubmitCall)} (hi : SynthInv cfg soxr deviceRate (s, l))
    (h : s.stack.step soxr a = some t')
    (hcall : CallAt cfg c (if s.stack.bridge.io.job = none then []
      else l.spoken.speech.callbacks ++ callbackOf (TtsStack.hostAction t'.output.queue a))
      t'.bridge.io)
    (hanswers : List.Forall₂ (AnsweredBy cfg s.stack.bridge.pool)
      ((endedBy s.stack.bridge t'.bridge).map fun job => ⟨job, l.spoken.speech.callbacks⟩) now) :
    SynthInv cfg soxr deviceRate ({ stack := t', call := c },
      { spoken := TtsStack.noteSpoken soxr l.spoken s.stack a, answers := l.answers ++ now }) := by
  obtain ⟨hspoken, hcallbacks⟩ := noteSpoken_speech l.spoken h
  have hmono := (BridgeHost.step_frame (TtsStack.host_step h)).2
  refine ⟨hi.spoken.step (watch_eq_some.mpr ⟨h, rfl⟩), ?_, ?_⟩
  · dsimp only
    rw [hspoken]
    exact List.rel_append (hi.answered.imp fun _ _ hj => hj.mono hmono)
      (hanswers.imp fun _ _ hj => hj.mono hmono)
  · dsimp only
    rw [hcallbacks]
    exact hcall

/-- Nobody but the I/O thread moves it. -/
theorem SynthInv.others {t' : TtsStack ρ} {a : TtsAction}
    (hi : SynthInv cfg soxr deviceRate (s, l)) (h : s.stack.step soxr a = some t')
    (hio : t'.bridge.io = s.stack.bridge.io) (hheard : ∀ e, a ≠ .submit e) :
    SynthInv cfg soxr deviceRate ({ stack := t', call := s.call },
      { spoken := TtsStack.noteSpoken soxr l.spoken s.stack a, answers := l.answers ++ [] }) := by
  refine hi.stackStep h ?_ (by rw [endedBy_of_same hio]; exact .nil)
  have hnone : callbackOf (TtsStack.hostAction t'.output.queue a) = [] := by
    cases a with
    | submit e => exact absurd rfl (hheard e)
    | _ => rfl
  rw [hio, hnone, List.append_nil]
  have hcall := hi.call
  dsimp only at hcall
  cases hpc : s.stack.bridge.io with
  | idle => trivial
  | returned => trivial
  | exited => trivial
  | _ =>
      rw [hpc] at hcall
      exact hcall

theorem SynthInv.submit {move : SubmitMove} (hi : SynthInv cfg soxr deviceRate (s, l))
    (h : s.step cfg soxr (.submit move) = some s') :
    SynthInv cfg soxr deviceRate (s', noteSynth cfg soxr l s (.submit move)) := by
  have hcall := hi.call
  dsimp only at hcall
  cases hmoved : s.moved cfg move with
  | none => simp [step, hmoved] at h
  | some r =>
      obtain ⟨c, e⟩ := r
      have hin : ∃ job synth, s.stack.bridge.io = .submitting job synth ∧
          s.call.step cfg job.sentence (s.stack.bridge.pool.isCancelled job.cancel) move =
            some (c, e) := by
        unfold moved at hmoved
        split at hmoved
        next job synth hpc => exact ⟨job, synth, hpc, hmoved⟩
        next => cases hmoved
      obtain ⟨job, synth, hpc, hcstep⟩ := hin
      rw [hpc] at hcall
      cases e with
      | none =>
          simp only [step, hmoved] at h
          cases h
          have hnote : noteSynth cfg soxr l s (.submit move) = l := by
            simp [noteSynth, stackAction, hmoved]
          rw [hnote]
          refine ⟨hi.spoken, hi.answered, ?_⟩
          dsimp only
          rw [hpc]
          exact SubmitCall.Told.quiet hcall hcstep
      | some e =>
          simp only [step, hmoved] at h
          obtain ⟨t', ht', rfl⟩ := Option.map_eq_some_iff.mp h
          obtain ⟨b', hb', rfl⟩ := Option.map_eq_some_iff.mp ht'
          have hjob : s.stack.bridge.io.job = some job := by rw [hpc]; rfl
          obtain ⟨hat, hjob'⟩ := callAt_submit hpc (TtsBridge.onSubmit_eq_some hb')
            (SubmitCall.Told.calls hcall hcstep)
          have hended : endedBy s.stack.bridge b' = [] := endedBy_of_job hjob'
          have hnote : noteSynth cfg soxr l s (.submit move) =
              { spoken := TtsStack.noteSpoken soxr l.spoken s.stack (.submit e)
                answers := l.answers ++ [] } := by
            simp only [noteSynth, stackAction, hmoved, ht', Option.bind_some, Option.map_some]
            rw [show endedBy s.stack.bridge (s.stack.onBridge b').bridge = [] from hended]
            rfl
          rw [hnote]
          refine hi.stackStep ht' ?_ (by rw [show endedBy s.stack.bridge
            (s.stack.onBridge b').bridge = [] from hended]; exact .nil)
          rw [hjob, if_neg (Option.some_ne_none job)]
          exact hat

theorem step_stack_eq_some {a : TtsAction} (h : s.step cfg soxr (.stack a) = some s') :
    (∀ e, a ≠ .submit e) ∧ ∃ t', s.stack.step soxr a = some t' ∧
      s' = { stack := t', call := if enters s.stack a = true then {} else s.call } := by
  have hown : ∀ e, a ≠ .submit e := by
    rintro e rfl
    cases h
  have hmap : (s.stack.step soxr a).map (fun stack =>
      { stack := stack, call := if enters s.stack a = true then {} else s.call }) = some s' := by
    cases a <;> first | exact h | exact absurd rfl (hown _)
  obtain ⟨t', ht', rfl⟩ := Option.map_eq_some_iff.mp hmap
  exact ⟨hown, t', ht', rfl⟩

theorem SynthInv.io {t' : TtsStack ρ} (hi : SynthInv cfg soxr deviceRate (s, l))
    (h : s.stack.step soxr .io = some t') :
    SynthInv cfg soxr deviceRate
      ({ stack := t', call := if startsCall s.stack.bridge.io = true then {} else s.call },
        noteSynth cfg soxr l s (.stack .io)) := by
  have hstep := h
  obtain ⟨⟨b', q'⟩, hb', rfl⟩ := Option.map_eq_some_iff.mp h
  obtain ⟨hat, hanswers⟩ := callAt_io hi.call (TtsBridge.ioStep_eq_some hb')
  simp only [noteSynth, stackAction, hstep]
  refine hi.stackStep hstep ?_ hanswers
  have hnone : callbackOf (TtsStack.hostAction q' .io) = [] := rfl
  dsimp only [TtsStack.onQueue]
  rw [hnone, List.append_nil]
  exact hat

theorem SynthInv.step {w w' : Synthesizer ρ × SynthLedger} {a : SynthAction}
    (hi : SynthInv cfg soxr deviceRate w)
    (h : watch (step cfg soxr) (noteSynth cfg soxr) w a = some w') :
    SynthInv cfg soxr deviceRate w' := by
  obtain ⟨s, l⟩ := w
  obtain ⟨s', l'⟩ := w'
  obtain ⟨hstep, rfl⟩ := watch_eq_some.mp h
  dsimp only at hstep
  cases a with
  | submit move => exact hi.submit hstep
  | stack a =>
      obtain ⟨hheard, t', ht', rfl⟩ := step_stack_eq_some hstep
      by_cases hown : a = .io
      · subst hown
        exact hi.io ht'
      · have hlabel : ∀ q, TtsStack.hostAction q a ≠ .io ∧
            ∀ e, TtsStack.hostAction q a ≠ .submit e := by
          intro q
          cases a with
          | io => exact absurd rfl hown
          | submit e => exact absurd rfl (hheard e)
          | _ => exact ⟨by simp [TtsStack.hostAction], by simp [TtsStack.hostAction]⟩
        have hsame := (BridgeHost.step_others (TtsStack.host_step ht') (hlabel _).1
          (hlabel _).2).1
        have henters : enters s.stack a = false := by
          cases a with
          | io => exact absurd rfl hown
          | _ => rfl
        have hended : endedBy s.stack.bridge t'.bridge = [] := endedBy_of_same hsame.io
        simp only [noteSynth, stackAction, ht', hended, List.map_nil, henters]
        exact hi.others ht' hsame.io hheard

/-! ## A turn -/

/-- The chunks of the responses for a turn's sentences. -/
def responsesOf (t : TurnId) : List SpokenJob → List (Option SubmitCall) → List (List Bytes)
  | j :: spoken, o :: answers =>
      (if j.job.sentence.turn = t then (o.map SubmitCall.accepted).toList else []) ++
        responsesOf t spoken answers
  | _, _ => []

/-- The runs of a turn that was not cancelled sound as its responses. -/
theorem soundOf_turnRuns {pool : TokenPool} {t : TurnId} {spoken : List SpokenJob}
    {answers : List (Option SubmitCall)}
    (h : List.Forall₂ (AnsweredBy cfg pool) spoken answers)
    (hlive : ∀ j ∈ spokenOf t spoken, pool.isCancelled j.job.cancel = false) :
    soundOf (turnRuns soxr deviceRate t spoken) =
      (responsesOf t spoken answers).flatMap (voice soxr deviceRate) := by
  induction h with
  | nil => rfl
  | @cons j o spoken answers hanswer _ ih =>
      by_cases hturn : j.job.sentence.turn = t
      · have hspoken : spokenOf t (j :: spoken) = j :: spokenOf t spoken :=
          List.filter_cons_of_pos (by simpa using hturn)
        rw [hspoken] at hlive
        have hrest := ih fun j' hj' => hlive j' (List.mem_cons_of_mem _ hj')
        cases o with
        | none =>
            have hown := hlive j List.mem_cons_self
            rw [hanswer.2] at hown
            cases hown
        | some c =>
            obtain ⟨failure, -, htold⟩ := hanswer
            rw [turnRuns, hspoken, List.flatMap_cons, soundOf_append, ← turnRuns, hrest,
              htold.callbacks, soundOf_sentenceRun, responsesOf, if_pos hturn]
            rfl
      · have hspoken : spokenOf t (j :: spoken) = spokenOf t spoken :=
          List.filter_cons_of_neg (by simpa using hturn)
        rw [hspoken] at hlive
        rw [turnRuns, hspoken, ← turnRuns, ih hlive, responsesOf, if_neg hturn]
        rfl

theorem initial_synthInv (deviceRate maxQueueChunks prefillTargetSamples : Nat) :
    SynthInv cfg soxr deviceRate
      (initial deviceRate maxQueueChunks prefillTargetSamples, {}) where
  spoken := TtsStack.initial_spokenInv deviceRate maxQueueChunks prefillTargetSamples
  answered := .nil
  call := trivial

/-- What went into the buffers of a turn, what the engine holds and what waits is what the
responses for its sentences sound like, and the job in hand as far as it is. Where the device has
the rate of the voices, these are the very samples of the responses. -/
structure VoicesTurn (soxr : Soxr ρ) (deviceRate : Nat) (t : TurnId) (s : Synthesizer ρ)
    (l : SynthLedger) (now : List AudioChunk) : Prop where
  sound : s.stack.writtenOf t ++ s.stack.heldOf t ++ soundOf (s.stack.output.queue.ofTurn t) =
    (responsesOf t l.spoken.speech.spoken l.answers).flatMap (voice soxr deviceRate) ++
      soundOf (ofTurn t now)
  sameRate : deviceRate = 22050 →
    s.stack.writtenOf t ++ s.stack.heldOf t ++ soundOf (s.stack.output.queue.ofTurn t) =
      (responsesOf t l.spoken.speech.spoken l.answers).flatMap
        (fun chunks => decodePcm chunks.flatten) ++ soundOf (ofTurn t now)

/-- In every run, whatever libcurl does and whenever a turn is cancelled: each job that is through
was cancelled before its submission, or its call made the callbacks of the chunks it accepted and
then one of `on_finished` and `on_error`; it reports success only if it had sent the job's own
request, accepted all that was delivered, and the status was good. The device is given, of a turn
that was not cancelled and has lost no chunk, what the responses for its sentences sound like. -/
theorem run_voicesResponses {maxQueueChunks prefillTargetSamples : Nat} {acts : List SynthAction}
    (hrun : run (watch (step cfg soxr) (noteSynth cfg soxr))
      (initial deviceRate maxQueueChunks prefillTargetSamples, {}) acts = some (s, l)) :
    List.Forall₂ (AnsweredBy cfg s.stack.bridge.pool) l.spoken.speech.spoken l.answers ∧
      ∃ now, (∀ chunk ∈ now, ∃ job, s.stack.bridge.io.job = some job ∧ OfJob job chunk) ∧
        ∀ t, t ≠ kNoTurn → (∀ c ∈ l.spoken.lost, c.turn ≠ t) →
          (∀ j ∈ spokenOf t l.spoken.speech.spoken,
            s.stack.bridge.pool.isCancelled j.job.cancel = false) →
          VoicesTurn soxr deviceRate t s l now := by
  have hinv : SynthInv cfg soxr deviceRate (s, l) :=
    run_preserves (SynthInv cfg soxr deviceRate) (fun _ _ _ hi hs => hi.step hs) hrun
      (initial_synthInv deviceRate maxQueueChunks prefillTargetSamples)
  obtain ⟨-, now, hruns, hnow⟩ := hinv.spoken.speech
  refine ⟨hinv.answered, now, hnow.ofJob, fun t ht hkept hlive => ?_⟩
  have hsound := (hinv.spoken.speaksTurn hruns ht hkept hlive).sound
  rw [soundOf_append, soundOf_turnRuns hinv.answered hlive] at hsound
  refine ⟨hsound, fun hrate => ?_⟩
  subst hrate
  rw [hsound, funext (voice_same_rate soxr)]

/-- One voice for all languages. -/
def oneVoice : TtsConfig where
  baseUrl := ascii "http://h/v1/"
  voicesResolved := (∅ : StringMap TtsVoice).insert (ascii "en") { modelId := ascii "m" }

/-- The response comes in three bytes and one; the first samples are played while it comes. -/
def twoChunks : List SynthAction :=
  [.stack (.event (.llmStarted { turn := 1 })), .stack (.event (.llmSentence { turn := 1 })),
    .stack .io, .stack .io, .stack .io, .submit (.enter true), .submit (.write [1, 0, 2]),
    .submit .call, .submit .call, .stack .io, .stack (.output (.setActive 1)),
    .stack (.output (.render 2)), .stack (.output .audio), .stack (.output .audio),
    .stack (.output .audio), .stack (.output .audio), .submit .progress, .submit (.write [0]),
    .submit .call, .stack .io, .submit (.perform none 200), .submit .conclude, .submit .report,
    .submit .leave, .stack .io, .stack .io, .stack .io, .stack .io]

theorem run_voicesResponses_twoChunks : ∃ (s : Synthesizer Unit) (l : SynthLedger),
    run (watch (step oneVoice Soxr.passThrough) (noteSynth oneVoice Soxr.passThrough))
        (initial 22050 0 0, {}) twoChunks = some (s, l) ∧
      s.stack.writtenOf 1 = [1] ∧
      (l.answers.map fun o => o.map SubmitCall.accepted) = [some [[1, 0, 2], [0]]] ∧
      ∃ now, VoicesTurn Soxr.passThrough 22050 1 s l now := by
  obtain ⟨⟨s, l⟩, hrun, hwritten, hanswers, hlost, hlive⟩ : ∃ w,
      run (watch (step oneVoice Soxr.passThrough) (noteSynth oneVoice Soxr.passThrough))
          (initial 22050 0 0, {}) twoChunks = some w ∧
        w.1.stack.writtenOf 1 = [1] ∧
        (w.2.answers.map fun o => o.map SubmitCall.accepted) = [some [[1, 0, 2], [0]]] ∧
        (∀ c ∈ w.2.spoken.lost, c.turn ≠ 1) ∧
          ∀ j ∈ spokenOf 1 w.2.spoken.speech.spoken,
            w.1.stack.bridge.pool.isCancelled j.job.cancel = false := by
    refine ⟨(run (watch (step oneVoice Soxr.passThrough) (noteSynth oneVoice Soxr.passThrough))
      (initial 22050 0 0, {}) twoChunks).get (by decide +kernel), ?_, by decide +kernel,
      by decide +kernel, by decide +kernel, by decide +kernel⟩
    exact (Option.some_get _).symm
  obtain ⟨-, now, -, hturn⟩ := run_voicesResponses hrun
  exact ⟨s, l, hrun, hwritten, hanswers, now, hturn 1 (by decide) hlost hlive⟩

end Synthesizer

end Acva.Orchestrator

import Acva.Dialogue.TtsBridge.Accounting
import Mathlib.Data.List.DropRight

/-! # The entries of the token map

A turn gets its entry from the first event that speaks of it, and loses it to the finish of
its reply. What is handled after the finish decides: an interruption that comes then makes
an entry which nothing takes away.
-/

namespace Acva.Dialogue

open Acva.Audio Acva.Playback Acva.Runs

variable {ρ : Type}

/-! ## Events of a turn -/

def startsTurn (t : TurnId) : Event → Bool
  | .llmStarted e => e.turn = t
  | _ => false

def speaksForTurn (t : TurnId) : Event → Bool
  | .llmSentence e => e.turn = t
  | _ => false

def finishesTurn (t : TurnId) : Event → Bool
  | .llmFinished e => e.turn = t
  | _ => false

def interruptsTurn (t : TurnId) : Event → Bool
  | .userInterrupted e => e.turn = t
  | _ => false

/-- The events that leave an entry behind. -/
def entersTurn (t : TurnId) (e : Event) : Bool :=
  startsTurn t e || speaksForTurn t e || interruptsTurn t e

/-- The events after the last finish of the turn. -/
def sinceFinished (t : TurnId) (es : List Event) : List Event :=
  es.rtakeWhile fun e => !finishesTurn t e

theorem sinceFinished_concat (t : TurnId) (es : List Event) (e : Event) :
    sinceFinished t (es ++ [e]) =
      if finishesTurn t e = true then [] else sinceFinished t es ++ [e] := by
  unfold sinceFinished
  split
  next h => exact List.rtakeWhile_concat_neg _ _ _ (by simp [h])
  next h => exact List.rtakeWhile_concat_pos _ _ _ (by simp [h])

/-! ## What an event does to the map -/

namespace TtsBridge

variable {b b' : TtsBridge ρ}

theorem mintToken_tokens (turn t : TurnId) (b : TtsBridge ρ) :
    (b.mintToken turn).2.tokens t ≠ none ↔ t = turn ∨ b.tokens t ≠ none := by
  simp only [mintToken, Function.update_apply]
  split
  next h => simp [h]
  next h => simp [h]

theorem tokenFor_tokens (turn t : TurnId) (b : TtsBridge ρ) :
    (b.tokenFor turn).2.tokens t ≠ none ↔ t = turn ∨ b.tokens t ≠ none := by
  unfold tokenFor
  split
  next => exact mintToken_tokens turn t b
  next tok h =>
    constructor
    · exact .inr
    · rintro (rfl | hother)
      · simp [h]
      · exact hother

theorem tokenToCancel_tokens (turn t : TurnId) (b : TtsBridge ρ) :
    (b.tokenToCancel turn).2.tokens t ≠ none ↔ t = turn ∨ b.tokens t ≠ none := by
  unfold tokenToCancel
  split
  next tok h =>
    constructor
    · exact .inr
    · rintro (rfl | hother)
      · simp [h]
      · exact hother
  next => exact mintToken_tokens turn t b

theorem onLlmSentence_tokens (e : LlmSentence) (b : TtsBridge ρ) :
    (b.onLlmSentence e).tokens = (b.tokenFor e.turn).2.tokens := by
  unfold onLlmSentence
  dsimp only
  split <;> rfl

/-- An event of the turn leaves an entry or takes it away. -/
theorem onEvent_tokens {e : Event} (h : b.onEvent e = some b') (t : TurnId) :
    b'.tokens t ≠ none ↔
      finishesTurn t e = false ∧ (entersTurn t e = true ∨ b.tokens t ≠ none) := by
  unfold onEvent at h
  split at h
  next =>
    cases e with
    | llmStarted e =>
        cases h
        rw [onLlmStarted, mintToken_tokens, eq_comm]
        simp [finishesTurn, entersTurn, startsTurn, speaksForTurn, interruptsTurn]
    | llmSentence e =>
        cases h
        rw [onLlmSentence_tokens, tokenFor_tokens, eq_comm]
        simp [finishesTurn, entersTurn, startsTurn, speaksForTurn, interruptsTurn]
    | llmFinished e =>
        cases h
        simp only [onLlmFinished, Function.update_apply, eq_comm (a := t)]
        split
        next hturn => simp [finishesTurn, hturn]
        next hturn =>
          simp [finishesTurn, entersTurn, startsTurn, speaksForTurn, interruptsTurn, hturn]
    | userInterrupted e =>
        cases h
        have hsame : (b.onUserInterrupted e).tokens = (b.tokenToCancel e.turn).2.tokens := rfl
        rw [hsame, tokenToCancel_tokens, eq_comm]
        simp [finishesTurn, entersTurn, startsTurn, speaksForTurn, interruptsTurn]
    | _ =>
        cases h
        simp [finishesTurn, entersTurn, startsTurn, speaksForTurn, interruptsTurn]
  next => cases h

theorem onSubmit_tokens {soxr : Soxr ρ} {e : SubmitEvent} (h : b.onSubmit soxr e = some b') :
    b'.tokens = b.tokens := by
  cases onSubmit_eq_some h <;> rfl

end TtsBridge

theorem TtsIoStep.tokens {soxr : Soxr ρ} {q q' : PlaybackQueue} {b b' : TtsBridge ρ}
    (h : TtsIoStep soxr q b b' q') : b'.tokens = b.tokens := by
  cases h <;> rfl

/-! ## Runs -/

/-- What the subscriber thread has handled. -/
def eventsOf : BridgeAction → List Event
  | .event e => [e]
  | _ => []

namespace BridgeHost

variable {soxr : Soxr ρ} {s s' : BridgeHost ρ} {handled : List Event}

def noteHandled (handled : List Event) (_ : BridgeHost ρ) (a : BridgeAction) : List Event :=
  handled ++ eventsOf a

/-- Only events touch the map. -/
theorem step_tokens {a : BridgeAction} (h : s.step soxr a = some s') :
    (∃ e, a = .event e ∧ s.bridge.onEvent e = some s'.bridge) ∨
      eventsOf a = [] ∧ s'.bridge.tokens = s.bridge.tokens := by
  cases a with
  | event e =>
      obtain ⟨b', hb', rfl⟩ := Option.map_eq_some_iff.mp h
      exact .inl ⟨e, rfl, hb'⟩
  | handler =>
      obtain ⟨⟨b', q'⟩, hb', rfl⟩ := Option.map_eq_some_iff.mp h
      obtain ⟨turn, tok, rest, -, rfl, -⟩ | ⟨turn, -, rfl, -⟩ := TtsBridge.handlerStep_eq_some hb'
      · exact .inr ⟨rfl, rfl⟩
      · exact .inr ⟨rfl, rfl⟩
  | io =>
      obtain ⟨⟨b', q'⟩, hb', rfl⟩ := Option.map_eq_some_iff.mp h
      exact .inr ⟨rfl, (TtsBridge.ioStep_eq_some hb').tokens⟩
  | submit e =>
      obtain ⟨b', hb', rfl⟩ := Option.map_eq_some_iff.mp h
      exact .inr ⟨rfl, TtsBridge.onSubmit_tokens hb'⟩
  | unsubscribe =>
      obtain ⟨b', hb', rfl⟩ := Option.map_eq_some_iff.mp h
      obtain ⟨-, rfl⟩ := TtsBridge.unsubscribe_eq_some hb'
      exact .inr ⟨rfl, rfl⟩
  | stop =>
      obtain ⟨b', hb', rfl⟩ := Option.map_eq_some_iff.mp h
      obtain ⟨-, rfl⟩ := TtsBridge.stop_eq_some hb'
      exact .inr ⟨rfl, rfl⟩
  | cancel tok =>
      cases h
      exact .inr ⟨rfl, rfl⟩
  | playback q =>
      cases h
      exact .inr ⟨rfl, rfl⟩

/-- A turn has an entry exactly if an event since its last finish has left one. -/
def EntriesFollow (b : TtsBridge ρ) (handled : List Event) : Prop :=
  ∀ t, b.tokens t ≠ none ↔ ∃ e ∈ sinceFinished t handled, entersTurn t e = true

theorem EntriesFollow.step {a : BridgeAction} (hf : EntriesFollow s.bridge handled)
    (h : s.step soxr a = some s') :
    EntriesFollow s'.bridge (noteHandled handled s a) := by
  intro t
  obtain ⟨e, rfl, he⟩ | ⟨hnone, hsame⟩ := step_tokens h
  · rw [TtsBridge.onEvent_tokens he, hf t, noteHandled, eventsOf, sinceFinished_concat]
    cases hfin : finishesTurn t e with
    | true => simp
    | false =>
        simp only [Bool.false_eq_true, if_false, true_and, List.mem_append, List.mem_singleton]
        constructor
        · rintro (henters | ⟨e', he', henters⟩)
          · exact ⟨e, .inr rfl, henters⟩
          · exact ⟨e', .inl he', henters⟩
        · rintro ⟨e', he' | rfl, henters⟩
          · exact .inr ⟨e', he', henters⟩
          · exact .inl henters
  · rw [noteHandled, hnone, List.append_nil, hsame]
    exact hf t

theorem run_entriesFollow {deviceRate : Nat} {queue : PlaybackQueue} {acts : List BridgeAction}
    (hrun : run (watch (step soxr) noteHandled) (⟨{ deviceRate := deviceRate }, queue⟩, []) acts =
      some (s, handled)) : EntriesFollow s.bridge handled := by
  refine run_preserves (fun w => EntriesFollow w.1.bridge w.2) (fun w a w' hw hs => ?_) hrun ?_
  · obtain ⟨hstep, hnote⟩ := watch_eq_some.mp hs
    rw [hnote]
    exact hw.step hstep
  · intro t
    exact iff_of_false (fun h => h rfl) (by simp [sinceFinished])

/-- The reply was started and is finished, and all its sentences came before its finish. -/
structure ReplyEnded (t : TurnId) (handled : List Event) : Prop where
  started : ∃ e ∈ handled, startsTurn t e = true
  finished : ∃ e ∈ handled, finishesTurn t e = true
  spoken : ∀ e ∈ sinceFinished t handled, speaksForTurn t e = false

/-- The map forgets the turn of an ended reply exactly if nothing starts or interrupts it after
its finish. -/
theorem run_forgets_iff {deviceRate : Nat} {queue : PlaybackQueue} {acts : List BridgeAction}
    (hrun : run (watch (step soxr) noteHandled) (⟨{ deviceRate := deviceRate }, queue⟩, []) acts =
      some (s, handled)) {t : TurnId} (hended : ReplyEnded t handled) :
    s.bridge.tokens t = none ↔
      ∀ e ∈ sinceFinished t handled, startsTurn t e = false ∧ interruptsTurn t e = false := by
  have hentry := run_entriesFollow hrun t
  constructor
  · intro hnone e he
    have hquiet : ¬entersTurn t e = true := fun henters => hentry.mpr ⟨e, he, henters⟩ hnone
    simp only [entersTurn, Bool.or_eq_true, not_or, Bool.not_eq_true] at hquiet
    exact ⟨hquiet.1.1, hquiet.2⟩
  · intro hquiet
    by_contra hsome
    obtain ⟨e, he, henters⟩ := hentry.mp hsome
    obtain ⟨hstarts, hinterrupts⟩ := hquiet e he
    simp [entersTurn, hstarts, hinterrupts, hended.spoken e he] at henters

/-- A reply of one sentence; the user interrupts before its finish or after. -/
def interruptedReply (late : Bool) : List BridgeAction :=
  [.event (.llmStarted { turn := 1 }), .event (.llmSentence { turn := 1 })] ++
    if late = true then
      [.event (.llmFinished { turn := 1 }), .event (.userInterrupted { turn := 1 }), .handler]
    else
      [.event (.userInterrupted { turn := 1 }), .handler, .handler,
        .event (.llmFinished { turn := 1, cancelled := true })]

def inTime : List Event :=
  [.llmStarted { turn := 1 }, .llmSentence { turn := 1 }, .userInterrupted { turn := 1 },
    .llmFinished { turn := 1, cancelled := true }]

theorem run_forgets_iff_inTime : ∃ s : BridgeHost Unit,
    run (watch (step Soxr.passThrough) noteHandled) (⟨{ deviceRate := 48000 }, {}⟩, [])
        (interruptedReply false) = some (s, inTime) ∧ s.bridge.tokens 1 = none := by
  obtain ⟨s, hrun⟩ : ∃ s : BridgeHost Unit,
      run (watch (step Soxr.passThrough) noteHandled) (⟨{ deviceRate := 48000 }, {}⟩, [])
        (interruptedReply false) = some (s, inTime) := ⟨_, rfl⟩
  have hended : ReplyEnded 1 inTime := ⟨by decide, by decide, by decide⟩
  exact ⟨s, hrun, (run_forgets_iff hrun hended).mpr (by decide)⟩

def tooLate : List Event :=
  [.llmStarted { turn := 1 }, .llmSentence { turn := 1 }, .llmFinished { turn := 1 },
    .userInterrupted { turn := 1 }]

/-- Playback outlasts the reply, and so does the entry that the interruption makes. -/
theorem lateInterruption_kept : ∃ s : BridgeHost Unit,
    run (watch (step Soxr.passThrough) noteHandled) (⟨{ deviceRate := 48000 }, {}⟩, [])
        (interruptedReply true) = some (s, tooLate) ∧
      ReplyEnded 1 tooLate ∧ s.bridge.tokens 1 ≠ none :=
  ⟨_, rfl, ⟨by decide, by decide, by decide⟩, by decide⟩

end BridgeHost

end Acva.Dialogue

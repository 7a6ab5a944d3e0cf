import Acva.Dialogue.Fsm.Calculus

/-! # Reply events of another turn

Cancelled streams, the fake driver and the summarizer's background call all
publish reply events whose turn is not the active one. `PlaybackFinished` is
checked against the active turn; `LlmSentence` and `LlmFinished` are not.
-/

namespace Acva.Dialogue

namespace Fsm

/-- A sentence, end of generation or end of playback of a turn that is not active. -/
def StaleReply (s : Fsm) : Event → Prop
  | .llmSentence e => e.turn ≠ s.active.id
  | .llmFinished e => e.turn ≠ s.active.id
  | .playbackFinished e => e.turn ≠ s.active.id
  | _ => False

/-- Nothing that the turn accounting rests on has moved. -/
structure SameTurnState (s s' : Fsm) : Prop where
  state : s'.state = s.state
  outcome : s'.outcome = s.outcome
  sentencesPlayed : s'.sentencesPlayed = s.sentencesPlayed
  sentencesReceived : s'.sentencesReceived = s.sentencesReceived
  llmFinishedSeen : s'.llmFinishedSeen = s.llmFinishedSeen
  turnsCompleted : s'.turnsCompleted = s.turnsCompleted
  turnsInterrupted : s'.turnsInterrupted = s.turnsInterrupted
  turnsDiscarded : s'.turnsDiscarded = s.turnsDiscarded

theorem SameTurnState.refl (s : Fsm) : SameTurnState s s := by constructor <;> rfl

/-- An end of generation would complete the turn at hand. -/
def CompletesOnFinish (s : Fsm) : Prop :=
  s.state = .thinking ∧ s.sentencesReceived = 0 ∨
    s.state = .speaking ∧ s.sentencesPlayed = s.sentencesReceived

/-- The stale events that the machine does ignore. -/
def IgnoresStale (s : Fsm) : Event → Prop
  | .playbackFinished _ => True
  | .llmFinished _ => s.llmFinishedSeen = true ∧ ¬ s.CompletesOnFinish
  | _ => False

/-! ## The three handlers -/

/-- The turn check of the playback handler. -/
theorem handlePlaybackFinished_of_stale {s : Fsm} {e : PlaybackFinished} (now : TimePoint)
    (h : e.turn ≠ s.active.id) : s.handlePlaybackFinished e now = s := by
  rw [handlePlaybackFinished, if_pos h]

/-- A sentence is counted whatever its turn. -/
theorem handleLlmSentence_sentencesReceived (now : TimePoint) (s : Fsm) :
    (s.handleLlmSentence now).sentencesReceived = s.sentencesReceived + 1 := by
  simp only [handleLlmSentence]
  split <;> rfl

theorem handleLlmFinished_llmFinishedSeen (now : TimePoint) (s : Fsm) :
    (s.handleLlmFinished now).llmFinishedSeen = true := by
  simp only [handleLlmFinished, completeTurn]
  split
  · rfl
  · split <;> rfl

theorem handleLlmFinished_of_completes {s : Fsm} (now : TimePoint) (h : s.CompletesOnFinish) :
    (s.handleLlmFinished now).turnsCompleted = s.turnsCompleted + 1 := by
  simp only [handleLlmFinished, completeTurn]
  split
  next => rfl
  next hthinking =>
    rw [if_pos (h.resolve_left hthinking)]
    rfl

theorem handleLlmFinished_of_not_completes {s : Fsm} (now : TimePoint)
    (h : ¬ s.CompletesOnFinish) :
    s.handleLlmFinished now = { s with llmFinishedSeen := true } := by
  simp only [handleLlmFinished]
  rw [if_neg (fun hthinking => h (.inl hthinking)), if_neg (fun hspeaking => h (.inr hspeaking))]

end Fsm

namespace FsmHost

open Fsm

/-- A stale reply event leaves the turn state alone exactly when it is the end of a
playback, or a second end of generation that has nothing to complete. This holds in
every state, reachable or not. -/
theorem staleReply_ignored_iff {h : FsmHost} (now : TimePoint) {e : Event}
    (hs : StaleReply h.fsm e) :
    SameTurnState h.fsm (h.onEvent now e).fsm ↔ IgnoresStale h.fsm e := by
  cases e with
  | playbackFinished e =>
      have hsame : (h.onEvent now (.playbackFinished e)).fsm = h.fsm :=
        handlePlaybackFinished_of_stale now hs
      rw [hsame]
      exact iff_of_true (SameTurnState.refl h.fsm) trivial
  | llmSentence e =>
      refine iff_of_false (fun hsame => ?_) id
      have hcount := handleLlmSentence_sentencesReceived now h.fsm
      have hkept : (h.fsm.handleLlmSentence now).sentencesReceived = h.fsm.sentencesReceived :=
        hsame.sentencesReceived
      rw [hkept] at hcount
      simp at hcount
  | llmFinished e =>
      constructor
      · intro hsame
        have hseen : (h.fsm.handleLlmFinished now).llmFinishedSeen = h.fsm.llmFinishedSeen :=
          hsame.llmFinishedSeen
        rw [handleLlmFinished_llmFinishedSeen] at hseen
        refine ⟨hseen.symm, fun hcompletes => ?_⟩
        have hcount := handleLlmFinished_of_completes now hcompletes
        have hkept : (h.fsm.handleLlmFinished now).turnsCompleted = h.fsm.turnsCompleted :=
          hsame.turnsCompleted
        omega
      · rintro ⟨hseen, hcompletes⟩
        have hfsm : (h.onEvent now (.llmFinished e)).fsm = { h.fsm with llmFinishedSeen := true } :=
          handleLlmFinished_of_not_completes now hcompletes
        rw [hfsm]
        exact ⟨rfl, rfl, rfl, rfl, hseen.symm, rfl, rfl, rfl⟩
  | _ => exact hs.elim

/-- The host after one question of the user: turn 1 is in `Thinking`. -/
def awaitingReply : FsmHost :=
  (start 0 {}).onEvents
    [(1, .speechStarted {}), (2, .speechEnded {}), (3, .finalTranscript {})]

theorem awaitingReply_reachable : Reachable awaitingReply :=
  (Reachable.start 0 .init rfl).events _

theorem staleReply_ignored_iff_awaitingReply :
    SameTurnState awaitingReply.fsm (awaitingReply.onEvent 4 (.playbackFinished { turn := 7 })).fsm ↔
      IgnoresStale awaitingReply.fsm (.playbackFinished { turn := 7 }) :=
  staleReply_ignored_iff 4 (show (7 : TurnId) ≠ awaitingReply.fsm.active.id by decide)

/-- The summarizer's background call publishes its end of generation without a turn;
handled while turn 1 waits for its first sentence, it completes turn 1. -/
theorem noTurn_finish_completes_awaitingReply :
    Reachable awaitingReply ∧ StaleReply awaitingReply.fsm (.llmFinished { turn := kNoTurn }) ∧
      ¬ SameTurnState awaitingReply.fsm
        (awaitingReply.onEvent 4 (.llmFinished { turn := kNoTurn })).fsm := by
  refine ⟨awaitingReply_reachable, ?_, fun hsame => ?_⟩
  · show kNoTurn ≠ awaitingReply.fsm.active.id
    decide
  · exact absurd hsame.turnsCompleted (by decide)

end FsmHost

end Acva.Dialogue

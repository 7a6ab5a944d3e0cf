import Acva.Dialogue.Fsm.Machine
import Mathlib.Algebra.Group.Nat.Defs
import Mathlib.Tactic.Cases

/-! # What one event can do to the machine

Later modules use these equations and never unfold a handler. A turn id enters
the machine only through a turn start, which is where the factory moves, and
between two handled events the machine never rests in `Completed` or
`Interrupted`.
-/

namespace Acva.Dialogue

/-! ## Counting in 32 bits -/

theorem ofNat_eq_ofNat_iff {a b : Nat} :
    UInt32.ofNat a = UInt32.ofNat b ↔ a % 2 ^ 32 = b % 2 ^ 32 := by
  rw [UInt32.ofNat_eq_iff_mod_eq_toNat, UInt32.toNat_ofNat']

theorem add_one_of_eq {x : UInt32} {n : Nat} (h : x = UInt32.ofNat n) :
    x + 1 = UInt32.ofNat (n + 1) := by
  rw [h]
  exact (UInt32.ofNat_add n 1).symm

theorem one_le_ofNat_iff {n : Nat} : 1 ≤ UInt32.ofNat n ↔ n % 2 ^ 32 ≠ 0 := by
  rw [UInt32.le_iff_toNat_le, UInt32.toNat_ofNat']
  exact Nat.one_le_iff_ne_zero

namespace Fsm

/-! ## Transitions -/

@[simp] theorem transition_state (next : State) (now : TimePoint) (s : Fsm) :
    (s.transition next now).state = next := rfl

@[simp] theorem transition_active (next : State) (now : TimePoint) (s : Fsm) :
    (s.transition next now).active = s.active := rfl

@[simp] theorem transition_outcome (next : State) (now : TimePoint) (s : Fsm) :
    (s.transition next now).outcome = s.outcome := rfl

@[simp] theorem transition_sentencesPlayed (next : State) (now : TimePoint) (s : Fsm) :
    (s.transition next now).sentencesPlayed = s.sentencesPlayed := rfl

@[simp] theorem transition_sentencesReceived (next : State) (now : TimePoint) (s : Fsm) :
    (s.transition next now).sentencesReceived = s.sentencesReceived := rfl

@[simp] theorem transition_llmFinishedSeen (next : State) (now : TimePoint) (s : Fsm) :
    (s.transition next now).llmFinishedSeen = s.llmFinishedSeen := rfl

@[simp] theorem transition_turnsCompleted (next : State) (now : TimePoint) (s : Fsm) :
    (s.transition next now).turnsCompleted = s.turnsCompleted := rfl

@[simp] theorem transition_turnsInterrupted (next : State) (now : TimePoint) (s : Fsm) :
    (s.transition next now).turnsInterrupted = s.turnsInterrupted := rfl

@[simp] theorem transition_turnsDiscarded (next : State) (now : TimePoint) (s : Fsm) :
    (s.transition next now).turnsDiscarded = s.turnsDiscarded := rfl

/-! ## Resting states -/

/-- The machine is between two events: it passes through `Completed` and
`Interrupted` only inside a handler. -/
def Settled (s : Fsm) : Prop := s.state ≠ .completed ∧ s.state ≠ .interrupted

theorem settled_transition {next : State} (hc : next ≠ .completed) (hi : next ≠ .interrupted)
    (now : TimePoint) (s : Fsm) : (s.transition next now).Settled := ⟨hc, hi⟩

/-- An interruption always ends in `Listening`, unless nothing was started yet. -/
theorem handleUserInterrupted_state {s : Fsm} (now : TimePoint) (h : s.state ≠ .idle) :
    (s.handleUserInterrupted now).state = .listening := by
  unfold handleUserInterrupted
  split
  next hrest => exact hrest.resolve_right h
  next => rfl

end Fsm

namespace FsmHost

/-! ## Turn starts -/

theorem onEvent_speechStarted_of_startsTurn {h : FsmHost} (now : TimePoint) (e : SpeechStarted)
    (hs : h.fsm.startsTurn = true) :
    h.onEvent now (.speechStarted e) =
      { turns := h.turns.mint.2, fsm := h.fsm.beginTurn h.turns.mint.1 now } := by
  simp [onEvent, handleSpeechStarted, hs]

theorem onEvent_speechStarted_of_not_startsTurn {h : FsmHost} (now : TimePoint)
    (e : SpeechStarted) (hs : h.fsm.startsTurn = false) :
    h.onEvent now (.speechStarted e) = h := by
  simp [onEvent, handleSpeechStarted, hs]

/-- An event either leaves the turn and the factory alone or begins the next turn. -/
theorem onEvent_turn_cases (h : FsmHost) (now : TimePoint) (e : Event) :
    (h.onEvent now e).fsm.active.id = h.fsm.active.id ∧ (h.onEvent now e).turns = h.turns ∨
      e.kind = .speechStarted ∧ h.fsm.startsTurn = true ∧
        (h.onEvent now e).fsm.active.id = h.turns.next ∧
        (h.onEvent now e).turns = h.turns.mint.2 := by
  cases e with
  | speechStarted e =>
      cases hs : h.fsm.startsTurn with
      | true =>
          rw [onEvent_speechStarted_of_startsTurn now e hs]
          exact .inr ⟨rfl, rfl, rfl, rfl⟩
      | false =>
          rw [onEvent_speechStarted_of_not_startsTurn now e hs]
          exact .inl ⟨rfl, rfl⟩
  | speechEnded e =>
      left
      simp only [onEvent, onFsm, Fsm.handleSpeechEnded]
      split <;> simp
  | finalTranscript e =>
      left
      simp only [onEvent, onFsm, Fsm.handleFinalTranscript]
      split <;> simp
  | llmSentence e =>
      left
      simp only [onEvent, onFsm, Fsm.handleLlmSentence]
      split <;> simp
  | llmFinished e =>
      left
      simp only [onEvent, onFsm, Fsm.handleLlmFinished, Fsm.completeTurn]
      split
      · simp
      · split <;> simp
  | playbackFinished e =>
      left
      simp only [onEvent, onFsm, Fsm.handlePlaybackFinished, Fsm.completeTurn]
      split
      · simp
      · split <;> simp
  | userInterrupted e =>
      left
      simp only [onEvent, onFsm, Fsm.handleUserInterrupted]
      split
      · simp
      · split <;> simp
  | _ => exact .inl ⟨rfl, rfl⟩

/-! ## Interruptions -/

theorem onEvent_userInterrupted_of_rests (now : TimePoint) (e : UserInterrupted) {h : FsmHost}
    (hrest : h.fsm.state = .listening ∨ h.fsm.state = .idle) :
    h.onEvent now (.userInterrupted e) = h := by
  show h.onFsm (Fsm.handleUserInterrupted now) = h
  rw [onFsm, Fsm.handleUserInterrupted, if_pos hrest]

theorem onEvent_userInterrupted_published (now : TimePoint) (e : UserInterrupted) {h : FsmHost}
    (hbusy : ¬ (h.fsm.state = .listening ∨ h.fsm.state = .idle)) :
    (h.onEvent now (.userInterrupted e)).fsm.published =
      h.fsm.published ++ [.cancelGeneration { turn := h.fsm.active.id }] := by
  show (h.fsm.handleUserInterrupted now).published = _
  rw [Fsm.handleUserInterrupted, if_neg hbusy]
  dsimp only
  split <;> rfl

/-! ## The state diagram -/

/-- The edges of the diagram that the machine draws, each with the event that
takes it. `Completed` and `Interrupted` are passed through inside one handler. -/
inductive Edge : State → EventKind → State → Prop
  | turnStart {s : State} (hs : s = .listening ∨ s = .completed ∨ s = .interrupted) :
      Edge s .speechStarted .userSpeaking
  | speechEnded : Edge .userSpeaking .speechEnded .transcribing
  | finalTranscript : Edge .transcribing .finalTranscript .thinking
  | firstSentence : Edge .thinking .llmSentence .speaking
  | emptyReply : Edge .thinking .llmFinished .listening
  | llmCloses : Edge .speaking .llmFinished .listening
  | playbackDrained : Edge .speaking .playbackFinished .listening
  | userInterrupted {s : State} (hl : s ≠ .listening) (hi : s ≠ .idle) :
      Edge s .userInterrupted .listening

/-- No edge ends in a state the machine only passes through, or in `Idle`. -/
theorem Edge.target {s t : State} {k : EventKind} (h : Edge s k t) :
    t ≠ .completed ∧ t ≠ .interrupted ∧ t ≠ .idle := by
  cases h <;> decide

/-- Before its reply, a turn moves on the events of its own utterance or is interrupted. -/
theorem Edge.kind_of_utterance {s t : State} {k : EventKind} (h : Edge s k t)
    (hs : s = .listening ∨ s = .userSpeaking ∨ s = .transcribing) :
    k = .speechStarted ∨ k = .speechEnded ∨ k = .finalTranscript ∨ k = .userInterrupted := by
  cases h <;> simp_all

/-- Handling an event leaves the state alone or follows one edge for that event. -/
theorem onEvent_edge (h : FsmHost) (now : TimePoint) (e : Event) :
    (h.onEvent now e).fsm.state = h.fsm.state ∨
      Edge h.fsm.state e.kind (h.onEvent now e).fsm.state := by
  cases e with
  | speechStarted e =>
      cases hs : h.fsm.startsTurn with
      | true =>
          rw [onEvent_speechStarted_of_startsTurn now e hs]
          right
          apply Edge.turnStart
          simpa [Fsm.startsTurn, or_assoc] using hs
      | false =>
          rw [onEvent_speechStarted_of_not_startsTurn now e hs]
          exact .inl rfl
  | speechEnded e =>
      simp only [onEvent, onFsm, Fsm.handleSpeechEnded]
      split
      next hs => exact .inr (hs ▸ .speechEnded)
      next => exact .inl rfl
  | finalTranscript e =>
      simp only [onEvent, onFsm, Fsm.handleFinalTranscript]
      split
      next hs => exact .inr (hs ▸ .finalTranscript)
      next => exact .inl rfl
  | llmSentence e =>
      simp only [onEvent, onFsm, Fsm.handleLlmSentence]
      split
      next hs => exact .inr (hs ▸ .firstSentence)
      next => exact .inl rfl
  | llmFinished e =>
      simp only [onEvent, onFsm, Fsm.handleLlmFinished]
      split
      next hs => exact .inr (hs.1 ▸ .emptyReply)
      next =>
        split
        next hs => exact .inr (hs.1 ▸ .llmCloses)
        next => exact .inl rfl
  | playbackFinished e =>
      simp only [onEvent, onFsm, Fsm.handlePlaybackFinished]
      split
      next => exact .inl rfl
      next =>
        split
        next hs => exact .inr (hs.1 ▸ .playbackDrained)
        next => exact .inl rfl
  | userInterrupted e =>
      simp only [onEvent, onFsm, Fsm.handleUserInterrupted]
      split
      next => exact .inl rfl
      next hs => exact .inr (.userInterrupted (fun hl => hs (.inl hl)) (fun hi => hs (.inr hi)))
  | _ => exact .inl rfl

/-- An event of no utterance leaves a turn alone that has no reply yet. -/
theorem onEvent_state_of_utterance {h : FsmHost} (now : TimePoint) {e : Event}
    (hs : h.fsm.state = .listening ∨ h.fsm.state = .userSpeaking ∨ h.fsm.state = .transcribing)
    (hstart : e.kind ≠ .speechStarted) (hend : e.kind ≠ .speechEnded)
    (hfinal : e.kind ≠ .finalTranscript) (hint : e.kind ≠ .userInterrupted) :
    (h.onEvent now e).fsm.state = h.fsm.state := by
  rcases onEvent_edge h now e with heq | hedge
  · exact heq
  · rcases hedge.kind_of_utterance hs with hk | hk | hk | hk
    · exact absurd hk hstart
    · exact absurd hk hend
    · exact absurd hk hfinal
    · exact absurd hk hint

theorem onEvent_settled {h : FsmHost} (now : TimePoint) (e : Event) (hs : h.fsm.Settled) :
    (h.onEvent now e).fsm.Settled := by
  rcases onEvent_edge h now e with heq | hedge
  · rwa [Fsm.Settled, heq]
  · exact ⟨hedge.target.1, hedge.target.2.1⟩

/-- A started host never goes back to `Idle`. -/
theorem onEvent_ne_idle {h : FsmHost} (now : TimePoint) (e : Event) (hs : h.fsm.state ≠ .idle) :
    (h.onEvent now e).fsm.state ≠ .idle := by
  rcases onEvent_edge h now e with heq | hedge
  · rwa [heq]
  · exact hedge.target.2.2

/-! ## The invariant of reachable hosts -/

/-- The active turn came from the factory, and the machine rests between events. -/
structure Inv (h : FsmHost) : Prop where
  active_lt : h.fsm.active.id < h.turns.next
  settled : h.fsm.Settled

theorem Inv.onEvent {h : FsmHost} (hi : h.Inv) (now : TimePoint) (e : Event) :
    (h.onEvent now e).Inv := by
  refine ⟨?_, onEvent_settled now e hi.settled⟩
  rcases onEvent_turn_cases h now e with ⟨hid, hturns⟩ | ⟨_, _, hid, hturns⟩
  · rw [hid, hturns]
    exact hi.active_lt
  · rw [hid, hturns]
    exact Nat.lt_succ_self _

theorem Reachable.inv {h : FsmHost} (hr : Reachable h) : h.Inv := by
  induction hr with
  | init => exact ⟨by decide, by decide, by decide⟩
  | start now _ _ ih => exact ⟨ih.active_lt, Fsm.settled_transition (by decide) (by decide) now _⟩
  | event now e _ ih => exact ih.onEvent now e
  | mint _ ih => exact ⟨Nat.lt_succ_of_lt ih.active_lt, ih.settled⟩

/-! ## Event lists -/

@[simp] theorem onEvents_nil (h : FsmHost) : h.onEvents [] = h := rfl

@[simp] theorem onEvents_cons (h : FsmHost) (e : Timed) (es : List Timed) :
    h.onEvents (e :: es) = (h.onEvent e.1 e.2).onEvents es := rfl

theorem onEvents_append (h : FsmHost) (as bs : List Timed) :
    h.onEvents (as ++ bs) = (h.onEvents as).onEvents bs := by
  simp [onEvents]

theorem Reachable.events {h : FsmHost} (hr : Reachable h) (es : List Timed) :
    Reachable (h.onEvents es) := by
  induction es generalizing h with
  | nil => exact hr
  | cons e es ih => exact ih (.event e.1 e.2 hr)

/-- The factory only moves forward. -/
theorem next_le_onEvents (h : FsmHost) (es : List Timed) :
    h.turns.next ≤ (h.onEvents es).turns.next := by
  induction es generalizing h with
  | nil => exact Nat.le_refl _
  | cons e es ih =>
      refine Nat.le_trans ?_ (ih (h.onEvent e.1 e.2))
      rcases onEvent_turn_cases h e.1 e.2 with ⟨_, hturns⟩ | ⟨_, _, _, hturns⟩
      · exact Nat.le_of_eq (by rw [hturns])
      · rw [hturns]
        exact Nat.le_succ _

theorem onEvents_ne_idle {h : FsmHost} (es : List Timed) (hs : h.fsm.state ≠ .idle) :
    (h.onEvents es).fsm.state ≠ .idle := by
  induction es generalizing h with
  | nil => exact hs
  | cons e es ih => exact ih (onEvent_ne_idle e.1 e.2 hs)

end FsmHost

end Acva.Dialogue

import Acva.Dialogue.Fsm.Calculus

/-! # What the state observer is told

The observer is called once for each change of the state, and what it is told links up: it
begins where the machine was and ends where it is.
-/

namespace Acva.Dialogue

/-- A chain of changes from one state to another. -/
def Edges : State → List (State × State) → State → Prop
  | s, [], t => s = t
  | s, (a, b) :: es, t => a = s ∧ a ≠ b ∧ Edges b es t

theorem Edges.append {s t u : State} {es es' : List (State × State)} (h : Edges s es t)
    (h' : Edges t es' u) : Edges s (es ++ es') u := by
  induction es generalizing s with
  | nil => exact h ▸ h'
  | cons e es ih => exact ⟨h.1, h.2.1, ih h.2.2⟩

namespace Fsm

/-- From one machine to the next the observer was told the way. -/
def Told (s s' : Fsm) : Prop :=
  ∃ es, s'.stateCalls = s.stateCalls ++ es ∧ Edges s.state es s'.state

variable {s t u : Fsm}

theorem Told.same (hstate : t.state = s.state) (hcalls : t.stateCalls = s.stateCalls) :
    Told s t := ⟨[], by rw [hcalls, List.append_nil], hstate.symm⟩

theorem Told.trans (h : Told s t) (h' : Told t u) : Told s u := by
  obtain ⟨es, hcalls, hedges⟩ := h
  obtain ⟨es', hcalls', hedges'⟩ := h'
  exact ⟨es ++ es', by rw [hcalls', hcalls, List.append_assoc], hedges.append hedges'⟩

theorem told_transition (next : State) (now : TimePoint) (s : Fsm) :
    Told s (s.transition next now) := by
  by_cases h : s.state = next
  · exact ⟨[], by simp [transition, h], h⟩
  · exact ⟨[(s.state, next)], by simp [transition, h], rfl, h, rfl⟩

theorem Told.transition (h : Told s t) (next : State) (now : TimePoint) :
    Told s (t.transition next now) := h.trans (told_transition next now t)

theorem Told.completeTurn (h : Told s t) (now : TimePoint) : Told s (t.completeTurn now) := by
  simp only [Fsm.completeTurn]
  exact (h.trans (.same rfl rfl)).transition .completed now |>.transition .listening now

end Fsm

namespace FsmHost

theorem told_onEvent (h : FsmHost) (now : TimePoint) (e : Event) :
    Fsm.Told h.fsm (h.onEvent now e).fsm := by
  cases e with
  | speechStarted e =>
      cases hs : h.fsm.startsTurn with
      | true =>
          rw [onEvent_speechStarted_of_startsTurn now e hs]
          exact (Fsm.Told.same rfl rfl).transition _ _
      | false =>
          rw [onEvent_speechStarted_of_not_startsTurn now e hs]
          exact .same rfl rfl
  | speechEnded e =>
      simp only [onEvent, onFsm, Fsm.handleSpeechEnded]
      split
      · exact Fsm.told_transition _ _ _
      · exact .same rfl rfl
  | finalTranscript e =>
      simp only [onEvent, onFsm, Fsm.handleFinalTranscript]
      split
      · exact (Fsm.Told.same rfl rfl).transition _ _
      · exact .same rfl rfl
  | llmSentence e =>
      simp only [onEvent, onFsm, Fsm.handleLlmSentence]
      split
      · exact (Fsm.Told.same rfl rfl).transition _ _
      · exact .same rfl rfl
  | llmFinished e =>
      simp only [onEvent, onFsm, Fsm.handleLlmFinished]
      split
      · exact (Fsm.Told.same rfl rfl).completeTurn _
      · split
        · exact (Fsm.Told.same rfl rfl).completeTurn _
        · exact .same rfl rfl
  | playbackFinished e =>
      simp only [onEvent, onFsm, Fsm.handlePlaybackFinished]
      split
      · exact .same rfl rfl
      · split
        · exact (Fsm.Told.same rfl rfl).completeTurn _
        · exact .same rfl rfl
  | userInterrupted e =>
      simp only [onEvent, onFsm, Fsm.handleUserInterrupted]
      split
      · exact .same rfl rfl
      · split
        · exact ((Fsm.Told.same rfl rfl).transition _ _).transition _ _
        · exact ((Fsm.Told.same rfl rfl).transition _ _).transition _ _
  | _ => exact .same rfl rfl

end FsmHost

end Acva.Dialogue

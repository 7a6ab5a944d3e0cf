import Mathlib.Data.List.Basic

/-! # Parts of a stream

A stream grows at its end. A part that it ends with grows with it, and may lose elements at
either side; a part that stands somewhere in the stream stays where it is.
-/

namespace Acva.StreamParts

variable {α : Type*} {stream part : List α} {pos : Nat}

/-- The stream ends with the part, which begins at `pos`. -/
def EndsAt (stream part : List α) (pos : Nat) : Prop :=
  ∃ front, stream = front ++ part ∧ front.length = pos

/-- The part is a run of the stream that begins at `pos`. -/
def StandsAt (stream part : List α) (pos : Nat) : Prop :=
  ∃ front back, stream = front ++ part ++ back ∧ front.length = pos

theorem endsAt_nil (stream : List α) : EndsAt stream [] stream.length :=
  ⟨stream, (List.append_nil _).symm, rfl⟩

theorem EndsAt.length (h : EndsAt stream part pos) : pos + part.length = stream.length := by
  obtain ⟨front, rfl, rfl⟩ := h
  exact List.length_append.symm

theorem EndsAt.append (h : EndsAt stream part pos) (new : List α) :
    EndsAt (stream ++ new) (part ++ new) pos := by
  obtain ⟨front, rfl, hpos⟩ := h
  exact ⟨front, List.append_assoc _ _ _, hpos⟩

/-- The part loses its oldest elements. -/
theorem EndsAt.drop (h : EndsAt stream part pos) {n : Nat} (hn : n ≤ part.length) :
    EndsAt stream (part.drop n) (pos + n) := by
  obtain ⟨front, rfl, rfl⟩ := h
  refine ⟨front ++ part.take n, ?_, ?_⟩
  · rw [List.append_assoc, List.take_append_drop]
  · rw [List.length_append, List.length_take, Nat.min_eq_left hn]

theorem EndsAt.take (h : EndsAt stream part pos) (n : Nat) : StandsAt stream (part.take n) pos := by
  obtain ⟨front, rfl, hpos⟩ := h
  refine ⟨front, part.drop n, ?_, hpos⟩
  rw [List.append_assoc, List.take_append_drop]

theorem StandsAt.append (h : StandsAt stream part pos) (new : List α) :
    StandsAt (stream ++ new) part pos := by
  obtain ⟨front, back, rfl, hpos⟩ := h
  exact ⟨front, back ++ new, List.append_assoc _ _ _, hpos⟩

end Acva.StreamParts

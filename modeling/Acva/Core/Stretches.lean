import Mathlib.Data.List.Forall2

/-! # A log in stretches

Items come one after the other, and while one of them is at hand a log grows at its end. The
log is then a stretch for each item that is through, in the order of the items, and an open
stretch.
-/

namespace Acva.Stretches

variable {α β : Type*} {R R' : α → List β → Prop} {items : List α} {now log : List β}

/-- The log is one stretch for each item and what is in the open one. -/
def Stretched (R : α → List β → Prop) (items : List α) (now log : List β) : Prop :=
  ∃ stretches, List.Forall₂ R items stretches ∧ log = stretches.flatten ++ now

theorem stretched_nil : Stretched R [] [] [] := ⟨[], .nil, rfl⟩

/-- What the log gets belongs to the open stretch. -/
theorem Stretched.append (h : Stretched R items now log) (added : List β) :
    Stretched R items (now ++ added) (log ++ added) := by
  obtain ⟨stretches, hall, rfl⟩ := h
  exact ⟨stretches, hall, List.append_assoc _ _ _⟩

/-- The item at hand is through, and the next stretch begins. -/
theorem Stretched.close (h : Stretched R items now log) {a : α} (ha : R a now) :
    Stretched R (items ++ [a]) [] log := by
  obtain ⟨stretches, hall, rfl⟩ := h
  refine ⟨stretches ++ [now], List.rel_append hall (.cons ha .nil), ?_⟩
  rw [List.flatten_append, List.append_nil]
  exact congrArg (stretches.flatten ++ ·) (List.append_nil now).symm

theorem Stretched.imp (h : Stretched R items now log) (hR : ∀ a xs, R a xs → R' a xs) :
    Stretched R' items now log := by
  obtain ⟨stretches, hall, rfl⟩ := h
  exact ⟨stretches, hall.imp fun a xs => hR a xs, rfl⟩

end Acva.Stretches

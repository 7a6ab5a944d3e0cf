import Mathlib.Data.List.Basic

/-! # A cell between two threads

One thread puts values into a cell and overwrites what is still in it; another takes out what it
finds. No value is taken twice, what is taken is in order, and the newest is never lost.
-/

namespace Acva.Handoff

variable {α β : Type*}

structure Handed (puts taken : List α) (cell : Option α) : Prop where
  order : (taken ++ cell.toList).Sublist puts
  newest : (taken ++ cell.toList).getLast? = puts.getLast?

namespace Handed

variable {puts taken : List α} {cell : Option α}

theorem start : Handed ([] : List α) [] none := ⟨List.Sublist.refl _, rfl⟩

theorem put (h : Handed puts taken cell) (x : α) : Handed (puts ++ [x]) taken (some x) where
  order := ((List.sublist_append_left taken cell.toList).trans h.order).append_right [x]
  newest := by simp

theorem take (h : Handed puts taken cell) : Handed puts (taken ++ cell.toList) none where
  order := by simpa using h.order
  newest := by simpa using h.newest

theorem taken_sublist (h : Handed puts taken cell) : taken.Sublist puts :=
  (List.sublist_append_left _ _).trans h.order

/-- With the cell empty the newest has been taken. -/
theorem newest_taken (h : Handed puts taken none) : taken.getLast? = puts.getLast? := by
  simpa using h.newest

/-- What lies in the cell is the newest. -/
theorem newest_held {x : α} (h : Handed puts taken (some x)) : puts.getLast? = some x := by
  simpa using h.newest.symm

end Handed

end Acva.Handoff

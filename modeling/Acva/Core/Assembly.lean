import Mathlib.Data.List.GetD

/-! # Lists put together position by position

A list of which some positions are there and the others still hold a default, with the
number of positions that are there.
-/

namespace Acva.Assembly

variable {α : Type*} {d : α} {seen : Nat → Bool} {xs : List α}

/-- The elements at the positions that are there. -/
def partly (d : α) (seen : Nat → Bool) (xs : List α) : List α :=
  xs.mapIdx fun i x => if seen i = true then x else d

/-- How many of the first `n` positions are there. -/
def count (seen : Nat → Bool) (n : Nat) : Nat := (List.range n).countP seen

/-- One position more. -/
def mark (i : Nat) (seen : Nat → Bool) : Nat → Bool := fun j => seen j || decide (j = i)

@[simp] theorem length_partly : (partly d seen xs).length = xs.length := List.length_mapIdx

theorem getD_partly {i : Nat} (hi : i < xs.length) :
    (partly d seen xs).getD i d = if seen i = true then xs.getD i d else d := by
  simp only [partly, List.getD_eq_getElem?_getD, List.getElem?_mapIdx,
    List.getElem?_eq_getElem hi, Option.map_some, Option.getD_some]

/-- Where no position is there yet. -/
theorem partly_of_none (h : ∀ i < xs.length, seen i = false) :
    partly d seen xs = List.replicate xs.length d := by
  apply List.ext_getElem
  · rw [length_partly, List.length_replicate]
  · intro i hi hi'
    rw [length_partly] at hi
    simp [partly, h i hi]

theorem partly_of_all (h : ∀ i < xs.length, seen i = true) : partly d seen xs = xs := by
  apply List.ext_getElem
  · exact length_partly
  · intro i hi hi'
    simp [partly, h i hi']

/-- Writing a position puts it there. -/
theorem set_partly {i : Nat} (hi : i < xs.length) :
    (partly d seen xs).set i (xs.getD i d) = partly d (mark i seen) xs := by
  apply List.ext_getElem
  · rw [List.length_set, length_partly, length_partly]
  · intro j hj hj'
    simp only [partly, mark, List.getElem_set, List.getElem_mapIdx, Bool.or_eq_true,
      decide_eq_true_eq]
    by_cases hij : i = j
    · subst hij
      rw [if_pos rfl, if_pos (Or.inr rfl), List.getD_eq_getElem _ _ hi]
    · have hji : j ≠ i := fun h => hij h.symm
      simp only [if_neg hij, hji, or_false]

theorem count_of_none {n : Nat} (h : ∀ i < n, seen i = false) : count seen n = 0 := by
  refine List.countP_eq_zero.mpr fun i hi => ?_
  rw [h i (List.mem_range.mp hi)]
  exact Bool.false_ne_true

/-- As many positions as there are: all of them. -/
theorem count_eq_iff {n : Nat} : count seen n = n ↔ ∀ i < n, seen i = true := by
  have hlen := List.countP_eq_length (p := seen) (l := List.range n)
  rw [List.length_range] at hlen
  simp only [List.mem_range] at hlen
  exact hlen

theorem count_mark {n i : Nat} (hi : i < n) (hnew : seen i = false) :
    count (mark i seen) n = count seen n + 1 := by
  induction n with
  | zero => omega
  | succ n ih =>
      simp only [count, List.range_succ, List.countP_append, List.countP_singleton]
      by_cases hin : i = n
      · subst hin
        have hsame : (List.range i).countP (mark i seen) = (List.range i).countP seen := by
          refine List.countP_congr fun j hj => ?_
          have hne : j ≠ i := Nat.ne_of_lt (List.mem_range.mp hj)
          simp only [mark, decide_eq_false hne, Bool.or_false]
        have hmarked : mark i seen i = true := by simp [mark]
        rw [hsame, hmarked, hnew]
        rfl
      · have hrest := ih (by omega)
        simp only [count] at hrest
        have hlast : mark i seen n = seen n := by
          have hne : n ≠ i := fun h => hin h.symm
          simp only [mark, decide_eq_false hne, Bool.or_false]
        rw [hrest, hlast]
        omega

/-- A position that is there already changes nothing. -/
theorem mark_of_seen {i : Nat} (h : seen i = true) : mark i seen = seen := by
  funext j
  by_cases hij : j = i
  · subst hij
    simp [mark, h]
  · simp [mark, hij]

end Acva.Assembly

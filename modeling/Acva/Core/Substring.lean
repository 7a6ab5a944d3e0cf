import Mathlib.Data.List.Basic

/-! # The first place where a list stands in another

`find` gives the position, as a search through a text does. A part in front of the place can be
skipped where nothing in it is the first element of what is looked for.
-/

namespace Acva.Substring

variable {α : Type*} [DecidableEq α]

def find (key : List α) : List α → Option Nat
  | [] => if key = [] then some 0 else none
  | x :: text => if key <+: x :: text then some 0 else (find key text).map (· + 1)

theorem find_append (key text : List α) : find key (key ++ text) = some 0 := by
  cases h : key ++ text with
  | nil =>
      rw [find, if_pos (List.append_eq_nil_iff.mp h).1]
  | cons x rest =>
      rw [find, if_pos (h ▸ List.prefix_append key text)]

/-- In front of the place there is no first element of the key. -/
theorem find_skip {key : List α} (hne : key ≠ []) {front : List α}
    (hfront : ∀ x ∈ front, key.head? ≠ some x) (text : List α) :
    find key (front ++ text) = (find key text).map (· + front.length) := by
  induction front with
  | nil =>
      rw [List.nil_append]
      exact (Option.map_id' (x := find key text)).symm
  | cons x front ih =>
      have hstart : ¬ key <+: x :: (front ++ text) := by
        intro hprefix
        obtain ⟨y, key, rfl⟩ := List.exists_cons_of_ne_nil hne
        have hhead : y = x := (List.cons_prefix_cons.mp hprefix).1
        exact hfront x List.mem_cons_self (by rw [hhead]; rfl)
      rw [List.cons_append, find, if_neg hstart,
        ih fun y hy => hfront y (List.mem_cons_of_mem _ hy), Option.map_map]
      congr 1

end Acva.Substring

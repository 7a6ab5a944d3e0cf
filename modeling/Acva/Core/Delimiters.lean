import Acva.Core.TrailingRun
import Mathlib.Algebra.GroupWithZero.Nat

/-! # Delimiters in a list

A delimiter is a maximal run, of three elements or more, of a class. Two delimiters
enclose a block, and the next two the next one.
-/

namespace Acva.Delimiters

open Acva.TrailingRun

variable {α : Type*} {p : α → Bool}

structure Delimiter where
  start : Nat
  length : Nat
deriving DecidableEq, Repr

def Delimiter.stop (d : Delimiter) : Nat := d.start + d.length

/-- The run that ends before position `k`, if it is long enough. -/
def closeRun (k run : Nat) : List Delimiter := if 3 ≤ run then [⟨k - run, run⟩] else []

/-- The delimiters of a list that begins at position `k` in a run of `run` elements. -/
def delimitersFrom (p : α → Bool) : Nat → Nat → List α → List Delimiter
  | k, run, [] => closeRun k run
  | k, run, x :: xs =>
      if p x = true then delimitersFrom p (k + 1) (run + 1) xs
      else closeRun k run ++ delimitersFrom p (k + 1) 0 xs

def delimiters (p : α → Bool) (xs : List α) : List Delimiter := delimitersFrom p 0 0 xs

/-- From an opening delimiter to the next one, or to the end. -/
def blocks (stop : Nat) : List Delimiter → List (Nat × Nat)
  | opening :: closing :: rest => (opening.start, closing.stop) :: blocks stop rest
  | [opening] => [(opening.start, stop)]
  | [] => []

/-! ## Seams -/

theorem delimitersFrom_cons_of_neg {x : α} (hx : p x = false) (k run : Nat) (xs : List α) :
    delimitersFrom p k run (x :: xs) = closeRun k run ++ delimitersFrom p k 0 (x :: xs) := by
  have hx' : ¬p x = true := by rw [hx]; exact Bool.false_ne_true
  simp only [delimitersFrom, if_neg hx']
  rfl

/-- Before an element outside the class every run is over. -/
theorem delimitersFrom_append_cons {x : α} (hx : p x = false) (k run : Nat) (xs ys : List α) :
    delimitersFrom p k run (xs ++ x :: ys) =
      delimitersFrom p k run xs ++ delimitersFrom p (k + xs.length) 0 (x :: ys) := by
  induction xs generalizing k run with
  | nil => exact delimitersFrom_cons_of_neg hx k run ys
  | cons y xs ih =>
      have hlen : k + (y :: xs).length = k + 1 + xs.length := by
        rw [List.length_cons]
        omega
      rw [List.cons_append, delimitersFrom, delimitersFrom, hlen]
      split
      · exact ih (k + 1) (run + 1)
      · rw [ih (k + 1) 0, List.append_assoc]

theorem delimiters_append {xs ys : List α} (h : Sealed p xs ys) :
    delimiters p (xs ++ ys) = delimiters p xs ++ delimitersFrom p xs.length 0 ys := by
  unfold delimiters
  rcases h with h | ⟨y, hy, hpy⟩
  · rcases List.eq_nil_or_concat xs with rfl | ⟨front, x, rfl⟩
    · rfl
    · rw [List.concat_eq_append] at h ⊢
      have hx : p x = false := h x (by rw [List.getLast?_concat]; rfl)
      have hx' : ¬p x = true := by rw [hx]; exact Bool.false_ne_true
      have hone : ∀ k, delimitersFrom p k 0 (x :: ys) = delimitersFrom p (k + 1) 0 ys := by
        intro k
        simp only [delimitersFrom, if_neg hx']
        rfl
      have hlast : ∀ k, delimitersFrom p k 0 [x] = [] := by
        intro k
        simp only [delimitersFrom, if_neg hx']
        rfl
      rw [List.append_assoc, List.singleton_append, delimitersFrom_append_cons hx,
        delimitersFrom_append_cons hx, hone, hlast, List.append_nil, List.length_append,
        Nat.zero_add]
      rfl
  · cases ys with
    | nil => cases hy
    | cons z ys =>
        cases hy
        rw [delimitersFrom_append_cons hpy, Nat.zero_add]

/-! ## Bounds -/

/-- Where the delimiters of a list lie. -/
theorem delimitersFrom_bounds {k run : Nat} {xs : List α} {d : Delimiter} (hrun : run ≤ k)
    (h : d ∈ delimitersFrom p k run xs) :
    k - run ≤ d.start ∧ d.stop ≤ k + xs.length ∧ 3 ≤ d.length := by
  have hclose : ∀ k run : Nat, run ≤ k → d ∈ closeRun k run →
      d.start = k - run ∧ d.stop = k ∧ 3 ≤ d.length := by
    intro k run hrun h
    unfold closeRun at h
    split at h
    next hlong =>
      rw [List.mem_singleton] at h
      subst h
      refine ⟨rfl, ?_, hlong⟩
      show k - run + run = k
      omega
    next => cases h
  induction xs generalizing k run with
  | nil =>
      obtain ⟨hstart, hstop, hlong⟩ := hclose k run hrun h
      exact ⟨hstart.ge, hstop.le, hlong⟩
  | cons x xs ih =>
      rw [List.length_cons]
      rw [delimitersFrom] at h
      split at h
      · obtain ⟨hstart, hstop, hlong⟩ := ih (Nat.succ_le_succ hrun) h
        exact ⟨by omega, by omega, hlong⟩
      · rcases List.mem_append.mp h with h | h
        · obtain ⟨hstart, hstop, hlong⟩ := hclose k run hrun h
          exact ⟨hstart.ge, by omega, hlong⟩
        · obtain ⟨hstart, hstop, hlong⟩ := ih (Nat.zero_le _) h
          exact ⟨by omega, by omega, hlong⟩

theorem delimiters_bounds {xs : List α} {d : Delimiter} (h : d ∈ delimiters p xs) :
    d.stop ≤ xs.length ∧ 3 ≤ d.length := by
  obtain ⟨-, hstop, hlong⟩ := delimitersFrom_bounds (Nat.le_refl 0) h
  exact ⟨by omega, hlong⟩

/-- An element outside the class adds no delimiter. -/
theorem delimiters_concat {x : α} (hx : p x = false) (xs : List α) :
    delimiters p (xs ++ [x]) = delimiters p xs := by
  have hx' : ¬p x = true := by rw [hx]; exact Bool.false_ne_true
  have hone : ∀ k, delimitersFrom p k 0 [x] = [] := by
    intro k
    rw [delimitersFrom, if_neg hx']
    rfl
  rw [delimiters, delimitersFrom_append_cons hx, hone, List.append_nil]
  rfl

/-! ## Blocks -/

theorem blocks_append {ds : List Delimiter} (h : ds.length % 2 = 0) (stop : Nat)
    (ds' : List Delimiter) : blocks stop (ds ++ ds') = blocks stop ds ++ blocks stop ds' := by
  match ds, h with
  | [], _ => rfl
  | [_], h => cases h
  | opening :: closing :: rest, h =>
      have hrest : rest.length % 2 = 0 := by
        simp only [List.length_cons] at h
        omega
      exact congrArg _ (blocks_append hrest stop ds')

/-- A block starts at a delimiter, and stops at one or at the end. -/
theorem mem_blocks {stop : Nat} {ds : List Delimiter} {block : Nat × Nat}
    (h : block ∈ blocks stop ds) :
    (∃ d ∈ ds, block.1 = d.start) ∧
      ((∃ d ∈ ds, block.2 = d.stop) ∨ block.2 = stop ∧ ds.length % 2 = 1) := by
  match ds, h with
  | [opening], h =>
      obtain rfl : block = (opening.start, stop) := List.mem_singleton.mp h
      exact ⟨⟨opening, List.mem_cons_self, rfl⟩, Or.inr ⟨rfl, rfl⟩⟩
  | opening :: closing :: rest, h =>
      rcases List.mem_cons.mp h with rfl | h
      · exact ⟨⟨opening, List.mem_cons_self, rfl⟩,
          Or.inl ⟨closing, List.mem_cons_of_mem _ List.mem_cons_self, rfl⟩⟩
      · have hmem : ∀ d ∈ rest, d ∈ opening :: closing :: rest := fun d hd =>
          List.mem_cons_of_mem _ (List.mem_cons_of_mem _ hd)
        obtain ⟨⟨d, hd, hstart⟩, hstop⟩ := mem_blocks h
        refine ⟨⟨d, hmem d hd, hstart⟩, ?_⟩
        rcases hstop with ⟨d, hd, hstop⟩ | ⟨hstop, hodd⟩
        · exact Or.inl ⟨d, hmem d hd, hstop⟩
        · refine Or.inr ⟨hstop, ?_⟩
          simp only [List.length_cons]
          omega

/-- A position inside a block that no run crosses has an odd number of delimiters before it. -/
theorem odd_of_inside {xs ys : List α} (hseam : Sealed p xs ys) {stop : Nat} {block : Nat × Nat}
    (hblock : block ∈ blocks stop (delimiters p (xs ++ ys))) (hstart : block.1 < xs.length)
    (hstop : xs.length < block.2) : (delimiters p xs).length % 2 = 1 := by
  by_contra hodd
  have heven : (delimiters p xs).length % 2 = 0 := by omega
  rw [delimiters_append hseam, blocks_append heven] at hblock
  rcases List.mem_append.mp hblock with hblock | hblock
  · rcases (mem_blocks hblock).2 with ⟨d, hd, heq⟩ | ⟨-, hcontra⟩
    · have hbound := (delimiters_bounds hd).1
      omega
    · exact hodd hcontra
  · obtain ⟨d, hd, heq⟩ := (mem_blocks hblock).1
    have hbound := (delimitersFrom_bounds (Nat.zero_le _) hd).1
    omega

theorem block_stop_le {xs : List α} {block : Nat × Nat}
    (h : block ∈ blocks xs.length (delimiters p xs)) : block.2 ≤ xs.length := by
  rcases (mem_blocks h).2 with ⟨d, hd, heq⟩ | ⟨heq, -⟩
  · rw [heq]
    exact (delimiters_bounds hd).1
  · exact heq.le

/-! ## A switch that is flipped from the third element of a run on -/

/-- How often the switch is flipped along a list that begins in a run of `run` elements. -/
def flipsFrom (p : α → Bool) : Nat → List α → Nat
  | _, [] => 0
  | run, x :: xs =>
      if p x = true then (if 2 ≤ run then 1 else 0) + flipsFrom p (run + 1) xs
      else flipsFrom p 0 xs

/-- The delimiters of even length. -/
def evens (ds : List Delimiter) : Nat := ds.countP fun d => d.length % 2 = 0

theorem sum_flips (k run : Nat) (xs : List α) :
    ((delimitersFrom p k run xs).map fun d => d.length - 2).sum = run - 2 + flipsFrom p run xs := by
  have hclose : ∀ k run : Nat, ((closeRun k run).map fun d => d.length - 2).sum = run - 2 := by
    intro k run
    unfold closeRun
    split
    · rfl
    · show 0 = run - 2
      omega
  induction xs generalizing k run with
  | nil => exact hclose k run
  | cons x xs ih =>
      rw [delimitersFrom, flipsFrom]
      split
      · rw [ih]
        split <;> omega
      · rw [List.map_append, List.sum_append, hclose, ih]
        omega

/-- A delimiter flips the switch over, unless its length is even. -/
theorem flips_add_evens (xs : List α) :
    (flipsFrom p 0 xs + evens (delimiters p xs)) % 2 = (delimiters p xs).length % 2 := by
  have hparity : ∀ ds : List Delimiter, (∀ d ∈ ds, 3 ≤ d.length) →
      ((ds.map fun d => d.length - 2).sum + evens ds) % 2 = ds.length % 2 := by
    intro ds hds
    induction ds with
    | nil => rfl
    | cons d ds ih =>
        have hd := hds d List.mem_cons_self
        have hrest := ih fun d hd => hds d (List.mem_cons_of_mem _ hd)
        simp only [evens, List.map_cons, List.sum_cons, List.countP_cons, List.length_cons,
          decide_eq_true_eq] at hrest ⊢
        split <;> omega
  have hsum := sum_flips (p := p) 0 0 xs
  rw [Nat.zero_sub, Nat.zero_add] at hsum
  rw [← hsum]
  exact hparity _ fun d hd => (delimiters_bounds hd).2

end Acva.Delimiters

import Mathlib.Data.List.Range
import Mathlib.Data.Nat.ModEq
import Mathlib.Logic.Function.Basic
import Mathlib.Tactic.Common

/-! # The capture ring

One producer and one consumer share an array and move one index each. A full ring keeps one
slot free, so that equal indices mean that it is empty. What it holds is read from the slots
between the two indices; a push puts its value behind that, a pop takes the first off.
-/

namespace Acva.Audio

/-- The capacity is a power of two. -/
structure SpscRing (T : Type) (k : Nat) where
  tail : Fin (2 ^ k)
  head : Fin (2 ^ k)
  slots : Fin (2 ^ k) → T

namespace SpscRing

variable {T : Type} {k : Nat}

/-- `& kMask`. -/
def mask (k i : Nat) : Fin (2 ^ k) :=
  ⟨i &&& (2 ^ k - 1), by
    rw [Nat.and_two_pow_sub_one_eq_mod]
    exact Nat.mod_lt _ (Nat.two_pow_pos k)⟩

def push (value : T) (r : SpscRing T k) : Option (SpscRing T k) :=
  let nextTail := mask k (r.tail + 1)
  if nextTail = r.head then none
  else some { r with slots := Function.update r.slots r.tail value, tail := nextTail }

def pop (r : SpscRing T k) : Option (T × SpscRing T k) :=
  if r.head = r.tail then none
  else some (r.slots r.head, { r with head := mask k (r.head + 1) })

/-- The difference of the indices wraps, here by a whole capacity. -/
def size (r : SpscRing T k) : Nat := mask k (2 ^ k + r.tail - r.head)

/-- What the ring holds, the oldest first. -/
def contents (r : SpscRing T k) : List T :=
  (List.range r.size).map fun i => r.slots (mask k (r.head + i))

@[simp] theorem val_mask (k i : Nat) : (mask k i : Nat) = i % 2 ^ k :=
  Nat.and_two_pow_sub_one_eq_mod i k

theorem mask_val (i : Fin (2 ^ k)) : mask k i = i :=
  Fin.ext ((val_mask k i).trans (Nat.mod_eq_of_lt i.isLt))

theorem mask_turn (i : Fin (2 ^ k)) : mask k (i + 2 ^ k) = i :=
  Fin.ext (by rw [val_mask, Nat.add_mod_right, Nat.mod_eq_of_lt i.isLt])

/-- A step from a slot may wrap at once or later. -/
theorem mask_mask_add (i j : Nat) : mask k (mask k i + j) = mask k (i + j) :=
  Fin.ext (by simp only [val_mask, Nat.mod_add_mod])

theorem mask_add_injective {a i j : Nat} (hi : i < 2 ^ k) (hj : j < 2 ^ k)
    (h : mask k (a + i) = mask k (a + j)) : i = j := by
  have hmod : a + i ≡ a + j [MOD 2 ^ k] := by
    have hval := congrArg Fin.val h
    rwa [val_mask, val_mask] at hval
  have hcancel : i % 2 ^ k = j % 2 ^ k := hmod.add_left_cancel'
  rwa [Nat.mod_eq_of_lt hi, Nat.mod_eq_of_lt hj] at hcancel

/-! ## The slots between the indices -/

variable {r r' : SpscRing T k} {value : T}

theorem size_lt (r : SpscRing T k) : r.size < 2 ^ k := (mask k _).isLt

theorem mask_size (r : SpscRing T k) : mask k (r.head + r.size) = r.tail := by
  have hhead := r.head.isLt
  have hsum : (r.head : Nat) + (2 ^ k + r.tail - r.head) = r.tail + 2 ^ k := by omega
  refine Fin.ext ?_
  rw [val_mask, size, val_mask, Nat.add_mod_mod, hsum, Nat.add_mod_right,
    Nat.mod_eq_of_lt r.tail.isLt]

/-- The size is the only distance under the capacity that leads from the head to the tail. -/
theorem size_eq_of_mask {i : Nat} (hi : i < 2 ^ k) (h : mask k (r.head + i) = r.tail) :
    r.size = i :=
  mask_add_injective r.size_lt hi (r.mask_size.trans h.symm)

/-! ## What the two ends do -/

theorem length_contents (r : SpscRing T k) : r.contents.length = r.size := by
  rw [contents, List.length_map, List.length_range]

theorem mask_tail_succ (r : SpscRing T k) :
    mask k (r.tail + 1) = mask k (r.head + (r.size + 1)) := by
  rw [← mask_size r, mask_mask_add, Nat.add_assoc]

/-- A push is turned away exactly by a ring with one slot free. -/
theorem push_eq_none : r.push value = none ↔ r.contents.length = 2 ^ k - 1 := by
  have hpos := Nat.two_pow_pos k
  have hlt := r.size_lt
  rw [length_contents]
  simp only [push, mask_tail_succ, ite_eq_left_iff, reduceCtorEq, imp_false, not_not]
  constructor
  · intro hfull
    by_contra hroom
    have hback : mask k (r.head + (r.size + 1)) = mask k (r.head + 0) :=
      hfull.trans (mask_val r.head).symm
    have := mask_add_injective (by omega) hpos hback
    omega
  · intro hfull
    rw [hfull, Nat.sub_add_cancel hpos]
    exact mask_turn r.head

/-- What a push that is taken does. -/
theorem push_eq_some (h : r.push value = some r') :
    mask k (r.tail + 1) ≠ r.head ∧ r'.head = r.head ∧ r'.tail = mask k (r.tail + 1) ∧
      r'.slots = Function.update r.slots r.tail value := by
  simp only [push] at h
  split at h
  · cases h
  next hroom =>
    cases h
    exact ⟨hroom, rfl, rfl, rfl⟩

theorem contents_push (h : r.push value = some r') : r'.contents = r.contents ++ [value] := by
  have hlt := r.size_lt
  obtain ⟨hroom, hhead, htail, hslots⟩ := push_eq_some h
  have hsucc : r.size + 1 < 2 ^ k := by
    refine Nat.lt_of_le_of_ne hlt fun hfull => hroom ?_
    rw [mask_tail_succ, hfull]
    exact mask_turn r.head
  have hsize : r'.size = r.size + 1 := by
    refine size_eq_of_mask hsucc ?_
    rw [hhead, htail, mask_tail_succ]
  have hlast : r'.slots (mask k (r'.head + r.size)) = value := by
    rw [hslots, hhead, mask_size, Function.update_self]
  have hold : ∀ i ∈ List.range r.size,
      r'.slots (mask k (r'.head + i)) = r.slots (mask k (r.head + i)) := by
    intro i hi
    have hi' := List.mem_range.mp hi
    rw [hslots, hhead]
    refine Function.update_of_ne (fun hsame => ?_) _ _
    have := size_eq_of_mask (hi'.trans hlt) hsame
    omega
  rw [contents, contents, hsize, List.range_succ, List.map_append, List.map_singleton, hlast,
    List.map_congr_left hold]

theorem contents_pop_none (h : r.pop = none) : r.contents = [] := by
  have hempty : r.head = r.tail := by
    by_contra hne
    rw [pop, if_neg hne] at h
    cases h
  have hsize : r.size = 0 := by
    refine size_eq_of_mask (Nat.two_pow_pos k) ?_
    rw [← hempty]
    exact mask_val r.head
  rw [contents, hsize]
  rfl

theorem contents_pop (h : r.pop = some (value, r')) : r.contents = value :: r'.contents := by
  simp only [pop] at h
  split at h
  · cases h
  next hne =>
    obtain ⟨rfl, rfl⟩ := Prod.mk.inj (Option.some.inj h)
    have hlt := r.size_lt
    obtain ⟨n, hn⟩ : ∃ n, r.size = n + 1 := by
      refine Nat.exists_eq_succ_of_ne_zero fun hzero => hne ?_
      rw [← mask_size r, hzero]
      exact (mask_val r.head).symm
    have hnext : ∀ i, mask k (mask k (r.head + 1) + i) = mask k (r.head + (i + 1)) := by
      intro i
      rw [mask_mask_add, Nat.add_assoc, Nat.add_comm 1]
    have hsize : size { r with head := mask k (r.head + 1) } = n := by
      refine size_eq_of_mask (by omega) ?_
      rw [hnext, ← hn]
      exact r.mask_size
    rw [contents, contents, hn, hsize, List.range_succ_eq_map, List.map_cons, List.map_map]
    congr 1
    · exact congrArg r.slots (mask_val r.head)
    · exact List.map_congr_left fun i _ => congrArg r.slots (hnext i).symm

/-! ## A bounded queue -/

def offer (capacity : Nat) (value : T) (queue : List T) : Option (List T) :=
  if queue.length = capacity then none else some (queue ++ [value])

theorem push_refines (value : T) (r : SpscRing T k) :
    (r.push value).map contents = offer (2 ^ k - 1) value r.contents := by
  cases hpush : r.push value with
  | none => exact (if_pos (push_eq_none.mp hpush)).symm
  | some r' =>
      have hroom : ¬r.contents.length = 2 ^ k - 1 := by
        rw [← push_eq_none, hpush]
        exact Option.some_ne_none r'
      rw [offer, if_neg hroom, Option.map_some, contents_push hpush]

theorem pop_refines (r : SpscRing T k) :
    r.pop.map (fun p => (p.1, p.2.contents)) =
      r.contents.head?.map fun value => (value, r.contents.tail) := by
  cases hpop : r.pop with
  | none =>
      rw [contents_pop_none hpop]
      rfl
  | some popped =>
      rw [contents_pop hpop]
      rfl

end SpscRing

end Acva.Audio

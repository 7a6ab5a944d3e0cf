import Mathlib.Algebra.Order.Round
import Mathlib.Data.List.DropRight
import Mathlib.Data.Rat.Floor
import Mathlib.Tactic.FieldSimp

/-! # A window on a growing list

What a list ends with, how that moves when the list grows, and a buffer that holds
it turned round. The rounding that maps a point in time onto an index is here too.
-/

namespace Acva.Window

variable {α : Type*}

/-! ## The last elements -/

theorem length_rtake (n : Nat) (xs : List α) : (xs.rtake n).length = min n xs.length := by
  rw [List.rtake, List.length_drop]
  omega

theorem rtake_append_of_le {n : Nat} {xs ys : List α} (h : n ≤ ys.length) :
    (xs ++ ys).rtake n = ys.rtake n := by
  simp only [List.rtake, List.length_append]
  rw [List.drop_append, List.drop_eq_nil_of_le (by omega), List.nil_append]
  congr 1
  omega

/-- A full window that grows loses as many elements at its start. -/
theorem drop_length_eq_rtake {n : Nat} {xs ys : List α} (h : xs.length = n) :
    (xs ++ ys).drop ys.length = (xs ++ ys).rtake n := by
  rw [List.rtake, List.length_append, h, Nat.add_sub_cancel_left]

/-- Of a list that grows only its last elements are needed. -/
theorem rtake_rtake_append (n : Nat) (xs ys : List α) :
    (xs.rtake n ++ ys).rtake n = (xs ++ ys).rtake n := by
  have hsplit : xs = xs.take (xs.length - n) ++ xs.rtake n := (List.take_append_drop _ _).symm
  by_cases hn : n ≤ xs.length
  · have hlen : (xs.rtake n).length = n := by
      rw [length_rtake]
      omega
    conv_rhs => rw [hsplit, List.append_assoc]
    refine (rtake_append_of_le ?_).symm
    rw [List.length_append, hlen]
    omega
  · have hall : xs.rtake n = xs := by
      rw [List.rtake, Nat.sub_eq_zero_of_le (by omega), List.drop_zero]
    rw [hall]

/-- Of what a list grows by only the last elements are needed. -/
theorem rtake_append_rtake (n : Nat) (xs ys : List α) :
    (xs ++ ys.rtake n).rtake n = (xs ++ ys).rtake n := by
  by_cases hn : n ≤ ys.length
  · have hlen : n ≤ (ys.rtake n).length := by
      rw [length_rtake]
      omega
    rw [rtake_append_of_le hn, rtake_append_of_le hlen]
    have hone := rtake_rtake_append n ys []
    rwa [List.append_nil, List.append_nil] at hone
  · have hall : ys.rtake n = ys := by
      rw [List.rtake, Nat.sub_eq_zero_of_le (by omega), List.drop_zero]
    rw [hall]

/-- What a list grows by pushes as many elements out of its window. -/
theorem rtake_append (n : Nat) (xs ys : List α) :
    (xs ++ ys).rtake n = xs.rtake (n - ys.length) ++ ys.rtake n := by
  by_cases hn : n ≤ ys.length
  · rw [rtake_append_of_le hn, Nat.sub_eq_zero_of_le hn]
    simp [List.rtake]
  · have hall : ys.rtake n = ys := by
      rw [List.rtake, Nat.sub_eq_zero_of_le (by omega), List.drop_zero]
    have hstart : xs.length + ys.length - n = xs.length - (n - ys.length) := by omega
    rw [hall, List.rtake, List.length_append, hstart, List.drop_append_of_le_length (by omega)]
    rfl

theorem rtake_rtake_of_le {m n : Nat} (h : m ≤ n) (xs : List α) :
    (xs.rtake n).rtake m = xs.rtake m := by
  simp only [List.rtake, List.drop_drop, List.length_drop]
  congr 1
  omega

/-- An element of the window, counted from the window's start. -/
theorem getElem?_rtake (n i : Nat) (xs : List α) :
    (xs.rtake n)[i]? = xs[xs.length - n + i]? := by
  rw [List.rtake, List.getElem?_drop]

/-! ## A window and a filter -/

theorem rdrop_append_rtake (n : Nat) (xs : List α) : xs.rdrop n ++ xs.rtake n = xs :=
  List.take_append_drop _ _

/-- What a filter keeps of the window, the window on what it keeps ends with. -/
theorem filter_rtake_suffix (p : α → Bool) (n : Nat) (xs : List α) :
    (xs.rtake n).filter p <:+ (xs.filter p).rtake n := by
  have hkept : (xs.rtake n).filter p <:+ xs.filter p := by
    rw [← rdrop_append_rtake n xs, List.filter_append, rdrop_append_rtake]
    exact List.suffix_append _ _
  have hwindow : (xs.filter p).rtake n <:+ xs.filter p := List.drop_suffix _ _
  refine List.suffix_of_suffix_length_le hkept hwindow ?_
  have hle := List.length_filter_le p (xs.rtake n)
  have hall := hkept.length_le
  rw [length_rtake] at hle ⊢
  omega

/-- To filter a window is to look at the window of what passes exactly if the window holds
nothing that fails, or nothing before it passes. -/
theorem filter_rtake_eq_iff (p : α → Bool) (n : Nat) (xs : List α) :
    (xs.rtake n).filter p = (xs.filter p).rtake n ↔
      (∀ x ∈ xs.rtake n, p x = true) ∨ ∀ x ∈ xs.rdrop n, p x = false := by
  have hlength : (xs.rtake n).filter p = (xs.filter p).rtake n ↔
      ((xs.rtake n).filter p).length = ((xs.filter p).rtake n).length :=
    ⟨congrArg List.length, (filter_rtake_suffix p n xs).eq_of_length⟩
  have hsplit : (xs.filter p).length =
      ((xs.rdrop n).filter p).length + ((xs.rtake n).filter p).length := by
    rw [← List.length_append, ← List.filter_append, rdrop_append_rtake]
  have hbefore : (∀ x ∈ xs.rdrop n, p x = false) ↔ ((xs.rdrop n).filter p).length = 0 := by
    simp [List.filter_eq_nil_iff]
  have hinside : (∀ x ∈ xs.rtake n, p x = true) ↔
      ((xs.rtake n).filter p).length = (xs.rtake n).length := List.length_filter_eq_length_iff.symm
  have hle := List.length_filter_le p (xs.rtake n)
  have hdropped := List.length_filter_le p (xs.rdrop n)
  have hwhole : (xs.rdrop n).length = xs.length - n := List.length_take_of_le (Nat.sub_le _ _)
  rw [hlength, hbefore, hinside]
  rw [length_rtake] at hle ⊢
  rw [length_rtake]
  omega

/-- Where one list is a final part of the other, their images tell whether they agree. -/
theorem map_eq_map_iff_of_suffix {β : Type*} {f : α → β} {xs ys : List α}
    (h : xs <:+ ys ∨ ys <:+ xs) : xs.map f = ys.map f ↔ xs = ys := by
  constructor
  · intro hmap
    have hlength : xs.length = ys.length := by simpa using congrArg List.length hmap
    rcases h with h | h
    · exact h.eq_of_length hlength
    · exact (h.eq_of_length hlength.symm).symm
  · exact congrArg (List.map f)

/-! ## Rounding -/

/-- To the nearest integer, halves away from zero. -/
def roundAway (x : ℚ) : ℤ := if 0 ≤ x then round x else -round (-x)

theorem round_div_even (d : ℤ) {k : ℕ} (hk : 0 < k) :
    round ((d : ℚ) / (2 * k : ℕ)) = (d + k) / (2 * k : ℕ) := by
  have hk' : (k : ℚ) ≠ 0 := by exact_mod_cast hk.ne'
  rw [round_eq, ← Rat.floor_intCast_div_natCast]
  congr 1
  push_cast
  field_simp

/-- Rounding in integer arithmetic: half the divisor is added away from zero, and the
quotient is truncated. -/
theorem roundAway_div_even (d : ℤ) {k : ℕ} (hk : 0 < k) :
    roundAway ((d : ℚ) / (2 * k : ℕ)) =
      if 0 ≤ d then (d + k).tdiv (2 * k : ℕ) else (d - k).tdiv (2 * k : ℕ) := by
  have hpos : (0 : ℚ) < (2 * k : ℕ) := by exact_mod_cast (by omega : 0 < 2 * k)
  have hsign : (0 : ℚ) ≤ d / (2 * k : ℕ) ↔ 0 ≤ d := by
    rw [le_div_iff₀ hpos, zero_mul]
    exact_mod_cast Iff.rfl
  unfold roundAway
  by_cases hd : 0 ≤ d
  · rw [if_pos (hsign.mpr hd), if_pos hd, round_div_even d hk, Int.tdiv_eq_ediv_of_nonneg]
    omega
  · rw [if_neg (fun h => hd (hsign.mp h)), if_neg hd, ← neg_div, ← Int.cast_neg,
      round_div_even (-d) hk]
    have hneg : d - k = -(-d + k) := by omega
    rw [hneg, Int.neg_tdiv, Int.tdiv_eq_ediv_of_nonneg]
    omega

end Acva.Window

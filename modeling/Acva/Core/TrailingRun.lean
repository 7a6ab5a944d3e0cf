import Mathlib.Data.List.DropRight

/-! # Runs at the end of a list

A list is read from its end back to the first element outside a class. Where no run of
the class crosses the seam of two lists, the run at the end of their concatenation is
the run at the end of the second.
-/

namespace Acva.TrailingRun

variable {α : Type*} {p q : α → Bool} {xs ys zs : List α}

/-- An element outside the class stands on one side of the seam, or nothing before it. -/
def Sealed (p : α → Bool) (xs ys : List α) : Prop :=
  (∀ x ∈ xs.getLast?, p x = false) ∨ ∃ y ∈ ys.head?, p y = false

theorem Sealed.nil : Sealed p [] ys := Or.inl fun _ hx => by cases hx

theorem Sealed.of_last {x : α} (hx : p x = false) : Sealed p (xs ++ [x]) ys := by
  refine Or.inl fun y hy => ?_
  rw [List.getLast?_concat] at hy
  cases hy
  exact hx

theorem Sealed.append (h : Sealed p xs ys) : Sealed p xs (ys ++ zs) := by
  rcases h with h | ⟨y, hy, hpy⟩
  · exact Or.inl h
  · cases ys with
    | nil => cases hy
    | cons z ys => exact Or.inr ⟨y, hy, hpy⟩

/-- A smaller class has shorter runs. -/
theorem Sealed.mono (hqp : ∀ x, p x = false → q x = false) (h : Sealed p xs ys) :
    Sealed q xs ys := by
  rcases h with h | ⟨y, hy, hpy⟩
  · exact Or.inl fun x hx => hqp x (h x hx)
  · exact Or.inr ⟨y, hy, hqp y hpy⟩

theorem rtakeWhile_append (h : Sealed p xs ys) :
    (xs ++ ys).rtakeWhile p = ys.rtakeWhile p := by
  induction ys using List.reverseRecOn with
  | nil =>
      rw [List.append_nil, List.rtakeWhile_nil, List.rtakeWhile_eq_nil_iff]
      rcases h with h | ⟨y, hy, -⟩
      · intro hne
        have hlast := h (xs.getLast hne) (List.getLast?_eq_some_getLast hne)
        simp [hlast]
      · cases hy
  | append_singleton ys y ih =>
      rw [← List.append_assoc]
      by_cases hy : p y = true
      · have hys : Sealed p xs ys := by
          rcases h with h | ⟨z, hz, hpz⟩
          · exact Or.inl h
          · cases ys with
            | nil =>
                cases hz
                rw [hy] at hpz
                cases hpz
            | cons w ys => exact Or.inr ⟨z, hz, hpz⟩
        rw [List.rtakeWhile_concat_pos _ _ _ hy, List.rtakeWhile_concat_pos _ _ _ hy, ih hys]
      · rw [List.rtakeWhile_concat_neg _ _ _ hy, List.rtakeWhile_concat_neg _ _ _ hy]

/-- What stands before the run. -/
theorem rdropWhile_append (h : Sealed p xs ys) :
    (xs ++ ys).rdropWhile p = xs ++ ys.rdropWhile p := by
  have hboth : (xs ++ ys).rdropWhile p ++ (xs ++ ys).rtakeWhile p = xs ++ ys :=
    List.rdropWhile_append_rtakeWhile
  have hys : ys.rdropWhile p ++ ys.rtakeWhile p = ys := List.rdropWhile_append_rtakeWhile
  rw [rtakeWhile_append h] at hboth
  apply (List.append_left_inj (ys.rtakeWhile p)).mp
  rw [hboth, List.append_assoc, hys]

/-! ## How long the runs get

A run grows by one element at a time, so that a list with a long run has a prefix with
one of each smaller length.
-/

theorem exists_prefix_length_eq {k : Nat} (h : k ≤ (xs.rtakeWhile p).length) :
    ∃ ys, ys <+: xs ∧ (ys.rtakeWhile p).length = k := by
  induction xs using List.reverseRecOn with
  | nil => exact ⟨[], List.prefix_rfl, (Nat.le_zero.mp h).symm⟩
  | append_singleton xs x ih =>
      by_cases hk : k = ((xs ++ [x]).rtakeWhile p).length
      · exact ⟨xs ++ [x], List.prefix_rfl, hk.symm⟩
      · by_cases hx : p x = true
        · rw [List.rtakeWhile_concat_pos _ _ _ hx, List.length_append, List.length_singleton]
            at h hk
          obtain ⟨ys, hys, hlen⟩ := ih (by omega)
          exact ⟨ys, hys.trans (List.prefix_append _ _), hlen⟩
        · rw [List.rtakeWhile_concat_neg _ _ _ hx, List.length_nil] at h hk
          omega

/-- The runs of all prefixes stay short exactly if there is no long stretch of the class. -/
theorem forall_prefix_length_lt_iff {k : Nat} :
    (∀ ys, ys <+: xs → (ys.rtakeWhile p).length < k) ↔
      ¬ ∃ zs, zs <:+: xs ∧ zs.length = k ∧ ∀ z ∈ zs, p z = true := by
  constructor
  · rintro hshort ⟨zs, ⟨before, after, heq⟩, hlen, hall⟩
    have hrun : zs <:+ (before ++ zs).rtakeWhile p := by
      rw [List.rtakeWhile, List.reverse_append,
        List.takeWhile_append_of_pos fun z hz => hall z (List.mem_reverse.mp hz)]
      rw [List.reverse_append, List.reverse_reverse]
      exact List.suffix_append _ _
    have hlt := hshort (before ++ zs) ⟨after, heq⟩
    have hle := hrun.length_le
    omega
  · intro hnone ys hys
    by_contra hlong
    refine hnone ⟨(ys.rtakeWhile p).take k, ?_, ?_, fun z hz => ?_⟩
    · exact (List.take_prefix _ _).isInfix.trans
        ((List.rtakeWhile_suffix p ys).isInfix.trans hys.isInfix)
    · rw [List.length_take]
      omega
    · exact List.mem_rtakeWhile_imp (List.mem_of_mem_take hz)

end Acva.TrailingRun

import Mathlib.Data.List.GetD
import Mathlib.Data.List.Sort

/-! # Vectors written by position

A vector that is grown to fit the position written to, with a default in the
slots in between. What it holds is a function of the position, so the order of
writes to different positions does not matter. The last section reads the
occupied slots out in order and compares the texts joined from them.
-/

namespace Acva.Slots

variable {α : Type*}

/-! ## Resizing -/

/-- `std::vector::resize(n, d)`. -/
def resize (n : Nat) (d : α) (xs : List α) : List α :=
  xs.take n ++ List.replicate (n - xs.length) d

@[simp] theorem length_resize (n : Nat) (d : α) (xs : List α) : (resize n d xs).length = n := by
  simp only [resize, List.length_append, List.length_take, List.length_replicate]
  omega

/-- Growing a vector adds default slots only. -/
theorem getD_resize {n : Nat} (d : α) {xs : List α} (h : xs.length ≤ n) (i : Nat) :
    (resize n d xs).getD i d = xs.getD i d := by
  rw [resize, List.take_of_length_le h]
  by_cases hi : i < xs.length
  · rw [List.getD_append _ _ _ _ hi]
  · have hle : xs.length ≤ i := Nat.not_lt.mp hi
    rw [List.getD_append_right _ _ _ _ hle, List.getD_eq_default _ _ hle]
    by_cases hj : i - xs.length < n - xs.length
    · rw [List.getD_replicate _ hj]
    · exact List.getD_eq_default _ _ (by simpa using Nat.not_lt.mp hj)

/-- Grow a vector so that position `i` exists. -/
def fit (i : Nat) (d : α) (xs : List α) : List α :=
  if xs.length ≤ i then resize (i + 1) d xs else xs

theorem length_fit (i : Nat) (d : α) (xs : List α) :
    (fit i d xs).length = max xs.length (i + 1) := by
  unfold fit
  split
  · rw [length_resize]
    omega
  · omega

@[simp] theorem getD_fit (i : Nat) (d : α) (xs : List α) (j : Nat) :
    (fit i d xs).getD j d = xs.getD j d := by
  unfold fit
  split
  next h => exact getD_resize d (Nat.le_succ_of_le h) j
  next => rfl

theorem getD_set_fit (i : Nat) (x d : α) (xs : List α) (j : Nat) :
    ((fit i d xs).set i x).getD j d = if i = j then x else xs.getD j d := by
  have hi : i < (fit i d xs).length := by
    rw [length_fit]
    omega
  rw [← getD_fit i d xs j]
  simp only [List.getD_eq_getElem?_getD, List.getElem?_set, hi, if_true]
  split <;> rfl

/-! ## Occupied slots in order -/

/-- The entries of the first `n` positions, those without one left out. -/
def occupied (f : Nat → Option α) (n : Nat) : List α := (List.range n).filterMap f

theorem occupied_sublist {f g : Nat → Option α} (h : ∀ i, f i = none ∨ f i = g i) (n : Nat) :
    (occupied f n).Sublist (occupied g n) := by
  induction n with
  | zero => exact List.Sublist.refl _
  | succ k ih =>
      simp only [occupied, List.range_succ, List.filterMap_append]
      refine ih.append ?_
      rcases h k with hnone | heq
      · simp [hnone]
      · simp only [List.filterMap_cons, List.filterMap_nil, heq]
        exact List.Sublist.refl _

/-- With distinct keys, filtering first or looking up first is the same. -/
theorem find?_filter_of_distinct {key : α → Nat} {xs : List α} (h : (xs.map key).Nodup)
    (p : α → Bool) (i : Nat) :
    (xs.filter p).find? (key · = i) = (xs.find? (key · = i)).filter p := by
  induction xs with
  | nil => rfl
  | cons x xs ih =>
      rw [List.map_cons, List.nodup_cons] at h
      by_cases hx : key x = i
      · have hrest : (xs.filter p).find? (key · = i) = none := by
          refine List.find?_eq_none.mpr fun y hy hyi => h.1 ?_
          have hyx : key y = key x := by simpa [hx] using hyi
          exact hyx ▸ List.mem_map_of_mem (List.mem_of_mem_filter hy)
        cases hp : p x <;> simp [hp, hx, hrest, Option.filter_some]
      · cases hp : p x <;> simp [hp, hx, ih h.2]

theorem pairwise_mergeSort_key (key : α → Nat) (xs : List α) :
    (xs.mergeSort (fun a b => key a ≤ key b)).Pairwise (key · ≤ key ·) := by
  have htrans : ∀ a b c : α, decide (key a ≤ key b) = true → decide (key b ≤ key c) = true →
      decide (key a ≤ key c) = true := by
    intro a b c hab hbc
    simp only [decide_eq_true_eq] at *
    omega
  have htotal : ∀ a b : α, (decide (key a ≤ key b) || decide (key b ≤ key a)) = true := by
    intro a b
    simp only [Bool.or_eq_true, decide_eq_true_eq]
    omega
  simpa using List.pairwise_mergeSort htrans htotal xs

/-- Entries with distinct keys are sorted alike from any order. -/
theorem mergeSort_of_perm {key : α → Nat} {xs ys : List α} (hdistinct : (xs.map key).Nodup)
    (h : xs.Perm ys) :
    xs.mergeSort (fun a b => key a ≤ key b) = ys.mergeSort (fun a b => key a ≤ key b) := by
  have hperm : (xs.mergeSort (fun a b => key a ≤ key b)).Perm
      (ys.mergeSort (fun a b => key a ≤ key b)) :=
    (List.mergeSort_perm _ _).trans (h.trans (List.mergeSort_perm _ _).symm)
  refine hperm.eq_of_pairwise ?_ (pairwise_mergeSort_key key xs) (pairwise_mergeSort_key key ys)
  intro a b ha hb hab hba
  have ha' := (List.mergeSort_perm _ _).mem_iff.mp ha
  have hb' := h.mem_iff.mpr ((List.mergeSort_perm _ _).mem_iff.mp hb)
  exact List.inj_on_of_nodup_map hdistinct ha' hb' (Nat.le_antisymm hab hba)

/-- Sorting by distinct keys lists the occupied slots of the lookup by key. -/
theorem mergeSort_eq_occupied (key : α → Nat) {xs : List α} {n : Nat}
    (hdistinct : (xs.map key).Nodup) (hn : ∀ x ∈ xs, key x < n) :
    xs.mergeSort (fun a b => key a ≤ key b) = occupied (fun i => xs.find? (key · = i)) n := by
  have hkey : ∀ {x y}, x ∈ xs → y ∈ xs → key x = key y → x = y :=
    fun hx hy => List.inj_on_of_nodup_map hdistinct hx hy
  have hfind : ∀ {x}, x ∈ xs → xs.find? (key · = key x) = some x := by
    intro x hx
    cases h : xs.find? (key · = key x) with
    | none => simpa using List.find?_eq_none.mp h x hx
    | some y =>
        have hy := List.mem_of_find?_eq_some h
        have heq : key y = key x := by simpa using List.find?_some h
        rw [hkey hy hx heq]
  have hmem : ∀ x, x ∈ occupied (fun i => xs.find? (key · = i)) n ↔ x ∈ xs := by
    intro x
    simp only [occupied, List.mem_filterMap, List.mem_range]
    constructor
    · rintro ⟨i, _, hi⟩
      exact List.mem_of_find?_eq_some hi
    · exact fun hx => ⟨key x, hn x hx, hfind hx⟩
  have hsorted : (occupied (fun i => xs.find? (key · = i)) n).Pairwise (key · < key ·) := by
    refine List.pairwise_filterMap.mpr (List.pairwise_lt_range.imp ?_)
    intro i j hij x hx y hy
    have hxi : key x = i := by simpa using List.find?_some hx
    have hyj : key y = j := by simpa using List.find?_some hy
    omega
  have hperm : (xs.mergeSort (fun a b => key a ≤ key b)).Perm
      (occupied (fun i => xs.find? (key · = i)) n) := by
    refine (List.mergeSort_perm _ _).trans ?_
    refine (List.perm_ext_iff_of_nodup ?_ ?_).mpr fun x => (hmem x).symm
    · exact List.Nodup.of_map key hdistinct
    · refine hsorted.imp (S := (· ≠ ·)) ?_
      rintro a b hlt rfl
      exact Nat.lt_irrefl _ hlt
  have hleft := pairwise_mergeSort_key key xs
  refine hperm.eq_of_pairwise ?_ hleft (hsorted.imp Nat.le_of_lt)
  intro a b ha hb hab hba
  have hb' : b ∈ xs := (hmem b).mp hb
  exact hkey ((List.mergeSort_perm _ _).mem_iff.mp ha) hb' (Nat.le_antisymm hab hba)

theorem exists_bound (key : α → Nat) (xs : List α) : ∃ n, ∀ x ∈ xs, key x < n := by
  induction xs with
  | nil => exact ⟨0, by simp⟩
  | cons x xs ih =>
      obtain ⟨n, hn⟩ := ih
      refine ⟨max n (key x + 1), fun y hy => ?_⟩
      rcases List.mem_cons.mp hy with rfl | hy
      · omega
      · have := hn y hy
        omega

/-- Sorting keeps a part of the entries a part, in the same order. -/
theorem mergeSort_filter_sublist {key : α → Nat} {xs : List α} (h : (xs.map key).Nodup)
    {p q : α → Bool} (hpq : ∀ x ∈ xs, p x = true → q x = true) :
    ((xs.filter p).mergeSort (fun a b => key a ≤ key b)).Sublist
      ((xs.filter q).mergeSort (fun a b => key a ≤ key b)) := by
  obtain ⟨n, hn⟩ := exists_bound key xs
  have hsub : ∀ r : α → Bool, ((xs.filter r).map key).Nodup ∧ ∀ x ∈ xs.filter r, key x < n :=
    fun r => ⟨h.sublist (List.filter_sublist.map _), fun x hx => hn x (List.mem_of_mem_filter hx)⟩
  rw [mergeSort_eq_occupied key (hsub p).1 (hsub p).2,
    mergeSort_eq_occupied key (hsub q).1 (hsub q).2]
  refine occupied_sublist (fun i => ?_) n
  rw [find?_filter_of_distinct h, find?_filter_of_distinct h]
  cases hfind : xs.find? (key · = i) with
  | none => exact .inl rfl
  | some x =>
      have hx := List.mem_of_find?_eq_some hfind
      cases hp : p x with
      | false => simp [Option.filter_some, hp]
      | true => simp [Option.filter_some, hp, hpq x hx hp]

/-! ## Joined texts -/

/-- Join texts with a separator, one after another. -/
def joinFrom (sep : α) (acc : List α) (texts : List (List α)) : List α :=
  texts.foldl (fun acc s => if acc.isEmpty then s else acc ++ sep :: s) acc

def join (sep : α) (texts : List (List α)) : List α := joinFrom sep [] texts

theorem joinFrom_cons (sep : α) {acc : List α} (hacc : acc ≠ []) (s : List α)
    (ss : List (List α)) :
    joinFrom sep acc (s :: ss) = joinFrom sep (acc ++ sep :: s) ss := by
  simp [joinFrom, hacc]

theorem join_cons (sep : α) (s : List α) (ss : List (List α)) :
    join sep (s :: ss) = joinFrom sep s ss := by
  simp [join, joinFrom]

/-- Between nonempty texts there is one separator each. -/
theorem joinFrom_eq_intercalate (sep : α) {acc : List α} {texts : List (List α)}
    (hacc : acc ≠ []) (hne : ∀ s ∈ texts, s ≠ []) :
    joinFrom sep acc texts = [sep].intercalate (acc :: texts) := by
  induction texts generalizing acc with
  | nil => simp [joinFrom]
  | cons s ss ih =>
      rw [joinFrom_cons sep hacc, ih (by simp) (fun x hx => hne x (List.mem_cons_of_mem s hx))]
      cases ss with
      | nil => simp
      | cons _ _ => simp

theorem join_eq_intercalate (sep : α) {texts : List (List α)} (hne : ∀ s ∈ texts, s ≠ []) :
    join sep texts = [sep].intercalate texts := by
  cases texts with
  | nil => rfl
  | cons s ss =>
      rw [join_cons]
      exact joinFrom_eq_intercalate sep (hne s List.mem_cons_self)
        (fun x hx => hne x (List.mem_cons_of_mem s hx))

/-- The joined length of nonempty texts, the separators counted. -/
theorem length_joinFrom (sep : α) {acc : List α} {texts : List (List α)} (hacc : acc ≠ [])
    (hne : ∀ s ∈ texts, s ≠ []) :
    (joinFrom sep acc texts).length = acc.length + texts.flatten.length + texts.length := by
  induction texts generalizing acc with
  | nil => simp [joinFrom]
  | cons s ss ih =>
      rw [joinFrom_cons sep hacc, ih (by simp) (fun x hx => hne x (List.mem_cons_of_mem s hx))]
      simp
      omega

theorem length_join_succ (sep : α) {texts : List (List α)} (hsome : texts ≠ [])
    (hne : ∀ s ∈ texts, s ≠ []) :
    (join sep texts).length + 1 = texts.flatten.length + texts.length := by
  cases texts with
  | nil => exact absurd rfl hsome
  | cons s ss =>
      rw [join_cons, length_joinFrom sep (hne s List.mem_cons_self)
        (fun x hx => hne x (List.mem_cons_of_mem s hx))]
      simp
      omega

theorem length_flatten_le {xs ys : List (List α)} (h : xs.Sublist ys) :
    xs.flatten.length ≤ ys.flatten.length := by
  induction h with
  | slnil => exact Nat.le_refl _
  | cons s _ ih =>
      simp only [List.flatten_cons, List.length_append]
      omega
  | cons_cons s _ ih =>
      simp only [List.flatten_cons, List.length_append]
      omega

/-- Leaving out some of the texts shortens what is joined from them. -/
theorem length_join_lt (sep : α) {xs ys : List (List α)} (hsub : xs.Sublist ys)
    (hlen : xs.length < ys.length) (hne : ∀ s ∈ ys, s ≠ []) :
    (join sep xs).length < (join sep ys).length := by
  have hys : ys ≠ [] := by
    rintro rfl
    simp at hlen
  have hjoin := length_join_succ sep hys hne
  have hflat : xs.flatten.length ≤ ys.flatten.length := length_flatten_le hsub
  cases xs with
  | nil =>
      cases ys with
      | nil => exact absurd rfl hys
      | cons s ss =>
          have hs : 0 < s.length := List.length_pos_iff.mpr (hne s List.mem_cons_self)
          simp only [join, joinFrom, List.foldl_nil, List.length_nil, List.flatten_cons,
            List.length_append, List.length_cons] at hjoin ⊢
          omega
  | cons x xs =>
      have hjoin' := length_join_succ sep (List.cons_ne_nil x xs)
        (fun s hs => hne s (hsub.subset hs))
      omega

end Acva.Slots

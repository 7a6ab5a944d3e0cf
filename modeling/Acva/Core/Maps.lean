import Mathlib.Tactic.Common
import Std.Data.ExtTreeMap

/-! # Loops over ordered maps

A loop visits the entries of one map in the order of the keys and writes some of them,
changed, into another. What it leaves under a key is a matter of the one entry with
that key. The last section is about names that are looked up and replaced.
-/

namespace Acva.Maps

open Std

variable {κ V W : Type*} {cmp : κ → κ → Ordering} [TransCmp cmp]

/-- Write `f k v` under each key `k` for which there is one. -/
def insertAll (f : κ → V → Option W) (entries : ExtTreeMap κ V cmp) (target : ExtTreeMap κ W cmp) :
    ExtTreeMap κ W cmp :=
  entries.foldl
    (fun target k v =>
      match f k v with
      | some w => target.insert k w
      | none => target) target

/-- The entries of one map laid over those of another. -/
def overlay (entries target : ExtTreeMap κ V cmp) : ExtTreeMap κ V cmp :=
  insertAll (fun _ v => some v) entries target

variable [LawfulEqCmp cmp]

theorem getElem?_foldl_insert (f : κ → V → Option W) (k : κ) (l : List (κ × V))
    (target : ExtTreeMap κ W cmp) (hdistinct : l.Pairwise fun a b => a.1 ≠ b.1) :
    (l.foldl
        (fun target e =>
          match f e.1 e.2 with
          | some w => target.insert e.1 w
          | none => target) target)[k]? =
      (((l.find? fun e => cmp e.1 k = .eq).bind fun e => f e.1 e.2).or target[k]?) := by
  induction l generalizing target with
  | nil => rfl
  | cons e l ih =>
      obtain ⟨hfirst, hrest⟩ := List.pairwise_cons.mp hdistinct
      rw [List.foldl_cons, ih _ hrest]
      by_cases hk : cmp e.1 k = .eq
      · -- no later entry has the key
        have hlater : (l.find? fun e => cmp e.1 k = .eq) = none := by
          rw [List.find?_eq_none]
          intro e' he' hk'
          have hsame : e'.1 = k := by simpa using hk'
          exact hfirst e' he' ((LawfulEqCmp.eq_of_compare hk).trans hsame.symm)
        rw [hlater, List.find?_cons_of_pos (by simpa using hk)]
        cases hf : f e.1 e.2 with
        | none => simp [hf]
        | some w =>
            have hwritten : (target.insert e.1 w)[k]? = some w := by
              rw [ExtTreeMap.getElem?_insert, if_pos hk]
            simp [hf, hwritten]
      · rw [List.find?_cons_of_neg (by simpa using hk)]
        cases f e.1 e.2 with
        | none => rfl
        | some w => dsimp only; rw [ExtTreeMap.getElem?_insert, if_neg hk]

theorem find?_toList (entries : ExtTreeMap κ V cmp) (k : κ) :
    (entries.toList.find? fun e => cmp e.1 k = .eq) = entries[k]?.map fun v => (k, v) := by
  cases hk : entries[k]? with
  | none =>
      rw [Option.map_none, List.find?_eq_none]
      rintro ⟨k', v⟩ he hsame
      have hk' : k' = k := by simpa using hsame
      rw [ExtTreeMap.mem_toList_iff_getElem?_eq_some, hk', hk] at he
      cases he
  | some v =>
      cases hfound : entries.toList.find? fun e => cmp e.1 k = .eq with
      | none =>
          have hmem := ExtTreeMap.mem_toList_iff_getElem?_eq_some.mpr hk
          have hnone := List.find?_eq_none.mp hfound _ hmem
          simp only [ReflCmp.compare_self, decide_true, not_true_eq_false] at hnone
      | some e =>
          have hsame : e.1 = k := by simpa using List.find?_some hfound
          have hmem := ExtTreeMap.mem_toList_iff_getElem?_eq_some.mp
            (List.mem_of_find?_eq_some hfound : (e.1, e.2) ∈ entries.toList)
          rw [hsame, hk] at hmem
          rw [Option.map_some, ← hsame, Option.some.inj hmem]

/-- What the loop leaves under a key. -/
theorem getElem?_insertAll (f : κ → V → Option W) (entries : ExtTreeMap κ V cmp)
    (target : ExtTreeMap κ W cmp) (k : κ) :
    (insertAll f entries target)[k]? = (entries[k]?.bind (f k)).or target[k]? := by
  have hdistinct : entries.toList.Pairwise fun a b => a.1 ≠ b.1 :=
    ExtTreeMap.distinct_keys_toList.imp fun hne heq =>
      hne (LawfulEqCmp.compare_eq_iff_eq.mpr heq)
  rw [insertAll, ExtTreeMap.foldl_eq_foldl_toList, getElem?_foldl_insert f k _ _ hdistinct,
    find?_toList]
  cases entries[k]? <;> rfl

theorem getElem?_overlay (entries target : ExtTreeMap κ V cmp) (k : κ) :
    (overlay entries target)[k]? = entries[k]?.or target[k]? := by
  rw [overlay, getElem?_insertAll]
  cases entries[k]? <;> rfl

/-- What is laid over once may be laid over again. -/
theorem overlay_overlay (entries target : ExtTreeMap κ V cmp) :
    overlay entries (overlay entries target) = overlay entries target := by
  apply ExtTreeMap.ext_getElem?
  intro k
  rw [getElem?_overlay, getElem?_overlay, ← Option.or_assoc, Option.or_self]

/-! ## Names for names -/

/-- A name that stands for another is replaced by it. -/
def rename (f : κ → Option κ) (name : κ) : κ := (f name).getD name

/-- Replacing twice is replacing once, unless what a name stands for stands for something else. -/
theorem rename_rename_eq_iff (f : κ → Option κ) (name : κ) :
    rename f (rename f name) = rename f name ↔
      ∀ target, f name = some target → ∀ next, f target = some next → next = target := by
  unfold rename
  cases hname : f name with
  | none => simp [hname]
  | some target =>
      simp only [Option.getD_some, Option.some.injEq, forall_eq']
      cases f target with
      | none => simp
      | some next => simp

end Acva.Maps

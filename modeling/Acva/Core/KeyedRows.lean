import Mathlib.Data.List.Basic

/-! # Rows with a key

Rows of a table that are told apart by a key. A sweep picks rows out and then writes each of
them back under its key; as keys are not shared, it is one map over the table. An upsert
rewrites the rows that the new one conflicts with, and adds it where there are none.
-/

namespace Acva.KeyedRows

variable {α κ : Type*}

/-- No two rows have the same key. -/
def Distinct (key : α → κ) (rows : List α) : Prop := rows.Pairwise fun a b => key a ≠ key b

section Update

variable [DecidableEq κ] {key : α → κ}

/-- Rewrite the rows of a key. -/
def updateKey (key : α → κ) (k : κ) (f : α → α) (rows : List α) : List α :=
  rows.map fun r => if key r = k then f r else r

theorem updateKey_of_ne {k : κ} (f : α → α) {rows : List α} (h : ∀ r ∈ rows, key r ≠ k) :
    updateKey key k f rows = rows := by
  unfold updateKey
  refine (List.map_congr_left fun r hr => ?_).trans (List.map_id _)
  exact if_neg (h r hr)

/-- A row's key finds that row only. -/
theorem updateKey_middle {f : α → α} {r : α} {older newer : List α}
    (holder : ∀ x ∈ older, key x ≠ key r) (hnewer : ∀ x ∈ newer, key x ≠ key r) :
    updateKey key (key r) f (older ++ r :: newer) = older ++ f r :: newer := by
  have holder' := updateKey_of_ne f holder
  have hnewer' := updateKey_of_ne f hnewer
  unfold updateKey at holder' hnewer' ⊢
  rw [List.map_append, List.map_cons, if_pos rfl, holder', hnewer']

/-- The rows that are picked out are rewritten, each as it was when it was picked. -/
theorem sweep_eq_map {p : α → Bool} {g : α → α → α} (hkey : ∀ r x, key (g r x) = key x)
    {rows : List α} (h : Distinct key rows) :
    (rows.filter p).foldl (fun acc r => updateKey key (key r) (g r) acc) rows =
      rows.map fun r => if p r = true then g r r else r := by
  have hall : ∀ done rest : List α, Distinct key (done ++ rest) →
      (rest.filter p).foldl (fun acc r => updateKey key (key r) (g r) acc) (done ++ rest) =
        done ++ rest.map fun r => if p r = true then g r r else r := by
    intro done rest
    induction rest generalizing done with
    | nil => intro _; simp
    | cons r rest ih =>
        intro hdistinct
        obtain ⟨-, hrest, hcross⟩ := List.pairwise_append.mp hdistinct
        have hdone : ∀ x ∈ done, key x ≠ key r := fun x hx => hcross x hx r List.mem_cons_self
        have hlater : ∀ x ∈ rest, key x ≠ key r :=
          fun x hx => (List.rel_of_pairwise_cons hrest hx).symm
        -- the row that the round leaves has the key of the row it found
        have hstep : ∀ y, key y = key r → Distinct key ((done ++ [y]) ++ rest) := by
          intro y hy
          rw [List.append_assoc, List.singleton_append]
          refine List.pairwise_append.mpr ⟨(List.pairwise_append.mp hdistinct).1, ?_, ?_⟩
          · refine List.pairwise_cons.mpr ⟨fun x hx => ?_, hrest.of_cons⟩
            rw [hy]
            exact (hlater x hx).symm
          · intro x hx z hz
            rcases List.mem_cons.mp hz with rfl | hz
            · rw [hy]
              exact hdone x hx
            · exact hcross x hx z (List.mem_cons_of_mem _ hz)
        cases hp : p r with
        | true =>
            rw [List.filter_cons_of_pos hp, List.foldl_cons, updateKey_middle hdone hlater]
            have hround := ih (done ++ [g r r]) (hstep _ (hkey r r))
            simpa [hp] using hround
        | false =>
            rw [List.filter_cons_of_neg (by simp [hp])]
            have hround := ih (done ++ [r]) (hstep r rfl)
            simpa [hp] using hround
  exact hall [] rows h

end Update

/-! ## Upserts -/

def upsert (conflict : α → Bool) (rewrite : α → α) (new : α) (rows : List α) : List α :=
  if rows.any conflict = true then rows.map fun r => if conflict r = true then rewrite r else r
  else rows ++ [new]

section Upsert

variable {conflict q : α → Bool} {rewrite : α → α} {new : α} {rows : List α}

theorem filter_rewritten_other (hrewrite : ∀ r, conflict r = true → q (rewrite r) = false)
    (hother : ∀ r, conflict r = true → q r = false) :
    (rows.map fun r => if conflict r = true then rewrite r else r).filter q = rows.filter q := by
  induction rows with
  | nil => rfl
  | cons r rows ih =>
      cases hr : conflict r with
      | true => simp [hr, ih, hrewrite r hr, hother r hr]
      | false => simp [hr, ih, List.filter_cons]

theorem filter_rewritten (hrewrite : ∀ r, conflict r = true → conflict (rewrite r) = true) :
    (rows.map fun r => if conflict r = true then rewrite r else r).filter conflict =
      (rows.filter conflict).map rewrite := by
  induction rows with
  | nil => rfl
  | cons r rows ih =>
      cases hr : conflict r with
      | true => simp [hr, ih, hrewrite r hr]
      | false => simp [hr, ih]

/-- Rows of another kind are left alone. -/
theorem filter_upsert_other (hrewrite : ∀ r, conflict r = true → q (rewrite r) = false)
    (hother : ∀ r, conflict r = true → q r = false) (hnew : q new = false) :
    (upsert conflict rewrite new rows).filter q = rows.filter q := by
  unfold upsert
  split
  · exact filter_rewritten_other hrewrite hother
  · rw [List.filter_append, List.filter_singleton, hnew]
    exact List.append_nil _

/-- The rows in conflict are rewritten; without one the new row comes. -/
theorem filter_upsert_conflict (hrewrite : ∀ r, conflict r = true → conflict (rewrite r) = true)
    (hnew : conflict new = true) :
    (upsert conflict rewrite new rows).filter conflict =
      if rows.filter conflict = [] then [new] else (rows.filter conflict).map rewrite := by
  unfold upsert
  cases hany : rows.any conflict with
  | true =>
      have hsome : rows.filter conflict ≠ [] := by
        obtain ⟨r, hr, hconflict⟩ := List.any_eq_true.mp hany
        exact List.ne_nil_of_mem (List.mem_filter.mpr ⟨hr, hconflict⟩)
      rw [if_pos rfl, if_neg hsome, filter_rewritten hrewrite]
  | false =>
      have hnone : rows.filter conflict = [] := by
        refine List.filter_eq_nil_iff.mpr fun r hr => ?_
        simpa using List.any_eq_false.mp hany r hr
      rw [if_neg Bool.false_ne_true, List.filter_append, hnone, if_pos rfl,
        List.filter_singleton, hnew]
      rfl

/-- What conflicts with nothing is added. -/
theorem upsert_of_forall (h : ∀ r ∈ rows, conflict r = false) :
    upsert conflict rewrite new rows = rows ++ [new] := by
  refine if_neg fun hany => ?_
  obtain ⟨r, hr, hconflict⟩ := List.any_eq_true.mp hany
  rw [h r hr] at hconflict
  cases hconflict

end Upsert

end Acva.KeyedRows

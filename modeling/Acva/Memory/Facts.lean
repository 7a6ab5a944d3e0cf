import Acva.Core.KeyedRows
import Acva.Memory.Repository
import Mathlib.Data.List.Forall2

/-! # Facts

A fact is written with `ON CONFLICT(key, lang) DO UPDATE`. The unique index takes no two
`NULL`s for equal, so that a row without a language is never in conflict with another.
-/

namespace Acva.Memory

open KeyedRows

/-- The arguments of `upsert_fact`. -/
structure FactUpsert where
  key : Bytes
  lang : Option Bytes
  value : Bytes
  sourceTurn : Option Int
  confidence : Rat
  updatedAt : UnixMs
deriving DecidableEq, Repr

/-- A call. The database gives the id of a new row and says whether the statement succeeds. -/
structure FactCall where
  upsert : FactUpsert
  newId : RowId
  ok : Bool
deriving DecidableEq, Repr

namespace FactUpsert

/-- `NULL` is in conflict with nothing. -/
def conflicts (u : FactUpsert) (f : FactRow) : Bool := f.key = u.key ∧ f.lang = u.lang ∧ u.lang ≠ none

/-- `DO UPDATE SET`. -/
def rewrite (u : FactUpsert) (f : FactRow) : FactRow :=
  { f with
    value := u.value
    sourceTurnId := u.sourceTurn
    confidence := u.confidence
    updatedAt := u.updatedAt }

def newRow (newId : RowId) (u : FactUpsert) : FactRow where
  id := newId
  key := u.key
  value := u.value
  lang := u.lang
  sourceTurnId := u.sourceTurn
  confidence := u.confidence
  updatedAt := u.updatedAt

end FactUpsert

/-- A failed statement changes nothing. -/
def upsertFact (facts : List FactRow) (c : FactCall) : List FactRow :=
  if c.ok = true then upsert c.upsert.conflicts c.upsert.rewrite (c.upsert.newRow c.newId) facts
  else facts

/-! ## What the table should hold -/

def isFor (key : Bytes) (lang : Option Bytes) (f : FactRow) : Bool := f.key = key ∧ f.lang = lang

/-- The successful upserts for a key and a language, in order. -/
def upsertsFor (key : Bytes) (lang : Option Bytes) (calls : List FactCall) : List FactUpsert :=
  (calls.filter fun c => c.ok = true ∧ c.upsert.key = key ∧ c.upsert.lang = lang).map (·.upsert)

def Carries (f : FactRow) (u : FactUpsert) : Prop :=
  f.value = u.value ∧ f.sourceTurnId = u.sourceTurn ∧ f.confidence = u.confidence ∧
    f.updatedAt = u.updatedAt

/-- There is at most one row for each key and language, and it carries what the last successful
upsert for them gave. -/
def StoredOnce (facts : List FactRow) (calls : List FactCall) : Prop :=
  ∀ key lang, (facts.filter (isFor key lang)).length ≤ 1 ∧
    ∀ f ∈ facts.filter (isFor key lang), ∃ u, (upsertsFor key lang calls).getLast? = some u ∧
      Carries f u

/-! ## What it holds -/

/-- The upserts that still have a row of their own. -/
def survivors (lang : Option Bytes) (us : List FactUpsert) : List FactUpsert :=
  match lang with
  | none => us
  | some _ => us.getLast?.toList

/-- The rows of a key and a language are those of the surviving upserts. -/
def Holds (facts : List FactRow) (calls : List FactCall) : Prop :=
  ∀ key lang, List.Forall₂ Carries (facts.filter (isFor key lang))
    (survivors lang (upsertsFor key lang calls))

theorem upsertsFor_concat (key : Bytes) (lang : Option Bytes) (calls : List FactCall)
    (c : FactCall) :
    upsertsFor key lang (calls ++ [c]) =
      if c.ok = true ∧ c.upsert.key = key ∧ c.upsert.lang = lang then
        upsertsFor key lang calls ++ [c.upsert]
      else upsertsFor key lang calls := by
  unfold upsertsFor
  split
  next h => simp [List.filter_append, h]
  next h => simp [List.filter_append, h]

namespace FactUpsert

variable {u : FactUpsert} {f : FactRow}

theorem isFor_of_conflicts (h : u.conflicts f = true) (key : Bytes) (lang : Option Bytes) :
    isFor key lang f = decide (u.key = key ∧ u.lang = lang) := by
  simp only [conflicts, decide_eq_true_eq] at h
  simp only [isFor, h.1, h.2.1]

theorem isFor_rewrite (u : FactUpsert) (key : Bytes) (lang : Option Bytes) (f : FactRow) :
    isFor key lang (u.rewrite f) = isFor key lang f := rfl

theorem isFor_newRow (newId : RowId) (u : FactUpsert) :
    isFor u.key u.lang (u.newRow newId) = true := by
  simp [isFor, newRow]

/-- Rows of another key or language stay as they are. -/
theorem filter_upsert_ne {key : Bytes} {lang : Option Bytes}
    (h : ¬(u.key = key ∧ u.lang = lang)) (newId : RowId) (facts : List FactRow) :
    (upsert u.conflicts u.rewrite (u.newRow newId) facts).filter (isFor key lang) =
      facts.filter (isFor key lang) := by
  have hnot : decide (u.key = key ∧ u.lang = lang) = false := decide_eq_false h
  apply filter_upsert_other
  · intro f hf
    rw [isFor_rewrite, isFor_of_conflicts hf, hnot]
  · intro f hf
    rw [isFor_of_conflicts hf, hnot]
  · exact hnot

/-- Without a language there is a row more. -/
theorem filter_upsert_none (h : u.lang = none) (newId : RowId) (facts : List FactRow) :
    (upsert u.conflicts u.rewrite (u.newRow newId) facts).filter (isFor u.key u.lang) =
      facts.filter (isFor u.key u.lang) ++ [u.newRow newId] := by
  have hnone : ∀ f ∈ facts, u.conflicts f = false := by
    intro f _
    simp [conflicts, h]
  rw [upsert_of_forall hnone, List.filter_append, List.filter_singleton, isFor_newRow]
  rfl

/-- With one the row that is there is rewritten. -/
theorem filter_upsert_some {l : Bytes} (h : u.lang = some l) (newId : RowId)
    (facts : List FactRow) :
    (upsert u.conflicts u.rewrite (u.newRow newId) facts).filter (isFor u.key u.lang) =
      if facts.filter (isFor u.key u.lang) = [] then [u.newRow newId]
      else (facts.filter (isFor u.key u.lang)).map u.rewrite := by
  have hconflicts : isFor u.key u.lang = u.conflicts := by
    funext f
    simp [conflicts, isFor, h]
  have hnew := isFor_newRow newId u
  rw [hconflicts] at hnew ⊢
  refine filter_upsert_conflict (fun f hf => ?_) hnew
  rw [← hconflicts] at hf ⊢
  exact hf

end FactUpsert

theorem carries_newRow (newId : RowId) (u : FactUpsert) : Carries (u.newRow newId) u :=
  ⟨rfl, rfl, rfl, rfl⟩

theorem carries_rewrite (u : FactUpsert) (f : FactRow) : Carries (u.rewrite f) u :=
  ⟨rfl, rfl, rfl, rfl⟩

/-- Where one upsert at most survives, it is the last. -/
theorem survivors_eq_last {lang : Option Bytes} {us : List FactUpsert}
    (h : lang = none → us.length ≤ 1) : survivors lang us = us.getLast?.toList := by
  cases lang with
  | none =>
      show us = us.getLast?.toList
      match us, h rfl with
      | [], _ => rfl
      | [u], _ => rfl
  | some l => rfl

theorem Holds.step {facts : List FactRow} {calls : List FactCall} (h : Holds facts calls)
    (c : FactCall) : Holds (upsertFact facts c) (calls ++ [c]) := by
  intro key lang
  have hbefore := h key lang
  rw [upsertsFor_concat]
  unfold upsertFact
  cases hok : c.ok with
  | false => simpa using hbefore
  | true =>
      rw [if_pos rfl]
      by_cases hsame : c.upsert.key = key ∧ c.upsert.lang = lang
      · obtain ⟨rfl, rfl⟩ := hsame
        rw [if_pos ⟨rfl, rfl, rfl⟩]
        cases hlang : c.upsert.lang with
        | none =>
            rw [← hlang, FactUpsert.filter_upsert_none hlang]
            rw [hlang] at hbefore ⊢
            exact List.rel_append hbefore (.cons (carries_newRow _ _) .nil)
        | some l =>
            rw [← hlang, FactUpsert.filter_upsert_some hlang]
            have hlast : survivors c.upsert.lang
                (upsertsFor c.upsert.key c.upsert.lang calls ++ [c.upsert]) = [c.upsert] := by
              simp [survivors, hlang]
            rw [hlast]
            rw [survivors_eq_last (by simp [hlang])] at hbefore
            -- there is a row exactly if an upsert came before
            cases hrows : facts.filter (isFor c.upsert.key c.upsert.lang) with
            | nil =>
                rw [if_pos rfl]
                exact .cons (carries_newRow _ _) .nil
            | cons f rest =>
                rw [hrows] at hbefore
                obtain rfl : rest = [] := by
                  cases hlast? : (upsertsFor c.upsert.key c.upsert.lang calls).getLast? with
                  | none => rw [hlast?] at hbefore; cases hbefore
                  | some u =>
                      rw [hlast?] at hbefore
                      exact List.length_eq_zero_iff.mp (by simpa using hbefore.length_eq)
                rw [if_neg (List.cons_ne_nil _ _)]
                exact .cons (carries_rewrite _ _) .nil
      · rw [if_neg (fun hall => hsame hall.2), FactUpsert.filter_upsert_ne hsame]
        exact hbefore

/-- From the empty table on. -/
theorem run_holds (calls : List FactCall) : Holds (calls.foldl upsertFact []) calls := by
  induction calls using List.reverseRecOn with
  | nil =>
      intro key lang
      cases lang with
      | none => exact .nil
      | some l => exact .nil
  | append_singleton calls c ih =>
      rw [List.foldl_concat]
      exact ih.step c

/-- The same key twice, with the language or without. -/
def renamed (lang : Option Bytes) : List FactCall :=
  [{ upsert := { key := ascii "name", lang := lang, value := ascii "Alex", sourceTurn := none,
                 confidence := 9 / 10, updatedAt := 1 }
     newId := 1, ok := true },
   { upsert := { key := ascii "name", lang := lang, value := ascii "Alexei", sourceTurn := none,
                 confidence := 19 / 20, updatedAt := 2 }
     newId := 2, ok := true }]

/-- With a language there is one row, with the new value. -/
example : ((renamed (some (ascii "en"))).foldl upsertFact []).map (·.value) = [ascii "Alexei"] := by
  decide

end Acva.Memory

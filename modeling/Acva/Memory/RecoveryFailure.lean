import Acva.Memory.Recovery

/-! # When a recovery fails

The guard believes in its transaction from the constructor on, and no longer once a commit
was tried. Between the two ends it is right, and the database is taken back. It is wrong
where `BEGIN` fails, for then each statement counts at once, and where a failed `COMMIT` leaves
the transaction open, for then nobody rolls it back.
-/

namespace Acva.Memory

open Transactions

/-- The next statements all go well but for one. -/
def FailsOnlyAt (k : Nat) (fault : Fault Bytes) (db : Database) : Prop :=
  ∀ j, db.faults (db.issued + j) = if j = k then some fault else none

namespace Tables

/-- A session is open or a turn in progress. -/
def Dangles (d : Tables) : Prop :=
  (∃ s ∈ d.sessions.rows, s.endedAt = none) ∨ ∃ r ∈ d.turns.rows, r.status = .inProgress

/-- The statements of the sweep; each check of a summary is one. -/
def sweepCost (d : Tables) : Nat := d.repairCost + d.summaries.length

/-- The number of the `COMMIT`; that of `BEGIN` is 0. -/
def commitIndex (d : Tables) : Nat := d.sweepCost + 1

theorem repaired_eq_self_iff {d : Tables} : d.repaired = d ↔ ¬d.Dangles := by
  have hsessions : d.danglingSessions = [] ↔ ¬∃ s ∈ d.sessions.rows, s.endedAt = none := by
    simp [danglingSessions, List.filter_eq_nil_iff]
  have hturns : d.danglingTurns = [] ↔ ¬∃ r ∈ d.turns.rows, r.status = .inProgress := by
    simp [danglingTurns, List.filter_eq_nil_iff]
  constructor
  · rintro h (hopen | hprogress)
    · exact hsessions.mp (h ▸ d.danglingSessions_repaired) hopen
    · exact hturns.mp (h ▸ d.danglingTurns_repaired) hprogress
  · intro h
    unfold Dangles at h
    push Not at h
    exact repaired_eq_self (hsessions.mpr (by simpa using h.1)) (hturns.mpr (by simpa using h.2))

end Tables

/-- The destructor rolls back after an error in the sweep; after the commit it does nothing. -/
theorem runRecovery_eq_error {db db' : Database} {e : DbError}
    (h : runRecovery db = (.error e, db')) :
    (∃ e' db₁, Recovery.sweep db.begin.2 = (.error e', db₁) ∧ db' = db₁.rollback.2) ∨
      ∃ out db₁ f, Recovery.sweep db.begin.2 = (.ok out, db₁) ∧ db₁.commit = (some f, db') := by
  simp only [runRecovery, Transaction.construct] at h
  split at h
  next e' db₁ hsweep =>
    cases h
    exact .inl ⟨_, db₁, hsweep, rfl⟩
  next out db₁ hsweep =>
    refine .inr ⟨out, db₁, ?_⟩
    cases hcommit : db₁.commit with
    | mk err db₂ =>
        cases err with
        | none => simp [Transaction.commit, hcommit] at h
        | some f =>
            simp [Transaction.commit, Transaction.destruct, hcommit] at h
            exact ⟨f, hsweep, by rw [h.2]⟩

section Failure

variable {db db' : Database} {k : Nat} {fault : Fault Bytes} {e : DbError}

/-- Without `BEGIN` the sweep repairs the database, and only then the `COMMIT` is refused. -/
theorem runRecovery_outside (hopen : db.saved = none) (hfails : FailsOnlyAt 0 fault db)
    (h : runRecovery db = (.error e, db')) :
    db'.content = db.content.repaired ∧ db'.saved = none := by
  have hbegin : db.begin.2 = db.next := by
    rw [Connection.begin_of_fault (by simpa using hfails 0)]
    simp [Connection.spoil, Connection.takeBack, Connection.next, hopen]
  have hahead : ∀ j, db.next.faults (db.next.issued + j) = none := by
    intro j
    have hj := hfails (1 + j)
    rw [← Nat.add_assoc, if_neg (by omega)] at hj
    exact hj
  rcases runRecovery_eq_error h with ⟨e', db₁, hsweep, -⟩ | ⟨out, db₁, f, hsweep, hcommit⟩
  · rw [hbegin] at hsweep
    exact absurd (fun j _ => hahead j) (Recovery.sweep_error hsweep).not_clear
  · rw [hbegin] at hsweep
    obtain ⟨hreads, -⟩ := Recovery.sweep_ok hsweep
    obtain ⟨hcontent, hsaved⟩ | ⟨-, htaken, -⟩ := hreads.kept
    · obtain ⟨fault', hfault, -⟩ | ⟨hnone, rfl⟩ := Connection.commit_error hcommit
      · rw [hreads.faults, hreads.issued, Connection.after_faults, Connection.after_issued,
          Nat.add_assoc, hahead] at hfault
        cases hfault
      · exact ⟨hcontent, hnone⟩
    · rw [Connection.after_saved, Connection.next, hopen] at htaken
      cases htaken

/-- A transaction that is taken back leaves what was there before. -/
theorem rollback_restores {d : Tables} (hfault : db.faults db.issued = none)
    (hkept : db.saved = some d ∨ db.saved = none ∧ db.content = d) :
    db.rollback.2.content = d ∧ db.rollback.2.saved = none := by
  obtain hsaved | ⟨hnone, hcontent⟩ := hkept
  · rw [Connection.rollback_of_some hfault hsaved]
    exact ⟨rfl, rfl⟩
  · rw [Connection.rollback_of_none hfault hnone]
    exact ⟨hcontent, hnone⟩

/-- A sweep that fails has met the one fault, so that the rollback goes well. -/
theorem sweep_error_restores (hsaved : db.saved = some db.content)
    (hfails : FailsOnlyAt k fault db) (h : Recovery.sweep db = (.error e, db')) :
    (db'.rollback.2.content = db.content ∧ db'.rollback.2.saved = none) ∧
      k < db.content.sweepCost := by
  have hbroken := Recovery.sweep_error h
  obtain ⟨j, hj, hfault, hissued⟩ := hbroken.fault
  obtain rfl : j = k := by
    by_contra hne
    exact hfault ((hfails j).trans (if_neg hne))
  have hnext : db'.faults db'.issued = none := by
    rw [hbroken.faults, hissued, Nat.add_assoc, hfails]
    exact if_neg (by omega)
  refine ⟨rollback_restores hnext ?_, Nat.lt_add_right _ hj⟩
  obtain hsame | ⟨hnone, htaken⟩ := hbroken.kept
  · exact .inl (hsame.trans hsaved)
  · exact .inr ⟨hnone, Option.some.inj (htaken.symm.trans hsaved)⟩

/-- A commit that fails has met the fault itself, or an earlier one has ended the transaction. -/
theorem commit_error_restores {db₁ : Database} {out : RecoverySummary} {f : Failure Bytes}
    (hsaved : db.saved = some db.content) (hfails : FailsOnlyAt k fault db)
    (hsweep : Recovery.sweep db = (.ok out, db₁)) (hcommit : db₁.commit = (some f, db')) :
    (db'.content = db.content ∧ db'.saved = none) ∧
        ¬(k = db.content.sweepCost ∧ fault.rollsBack = false) ∨
      db'.saved ≠ none ∧ k = db.content.sweepCost ∧ fault.rollsBack = false := by
  obtain ⟨hreads, -⟩ := Recovery.sweep_ok hsweep
  have hthere : db₁.faults db₁.issued =
      if db.content.sweepCost = k then some fault else none := by
    rw [hreads.faults, hreads.issued, Connection.after_faults, Connection.after_issued,
      Nat.add_assoc, hfails]
    rfl
  obtain ⟨-, hsame⟩ | ⟨hnone, htaken, hcheck⟩ := hreads.kept
  · have hstill : db₁.saved = some db.content := hsame.trans hsaved
    obtain ⟨fault', hfault, rfl⟩ | ⟨hnone, -⟩ := Connection.commit_error hcommit
    · rw [hthere] at hfault
      split at hfault
      next hindex =>
        obtain rfl := Option.some.inj hfault
        cases hback : fault.rollsBack with
        | true =>
            refine .inl ⟨?_, by simp⟩
            simp [Connection.spoil, Connection.takeBack, Connection.next, hback, hstill]
        | false =>
            refine .inr ⟨?_, hindex.symm, rfl⟩
            simp [Connection.spoil, Connection.next, hback, hstill]
      next => cases hfault
    · rw [hstill] at hnone
      cases hnone
  · -- a check has failed, and the engine has taken the transaction back
    have hearlier : db.content.sweepCost ≠ k := by
      rintro rfl
      refine hcheck fun j hj => ?_
      rw [Connection.after_faults, Connection.after_issued, Nat.add_assoc, hfails]
      exact if_neg (Nat.ne_of_lt (Nat.add_lt_add_left hj _))
    obtain ⟨fault', hfault, -⟩ | ⟨-, rfl⟩ := Connection.commit_error hcommit
    · rw [hthere, if_neg hearlier] at hfault
      cases hfault
    · refine .inl ⟨⟨?_, hnone⟩, fun hlast => hearlier hlast.1.symm⟩
      exact Option.some.inj (htaken.symm.trans hsaved)

/-- Inside a transaction the database is taken back, unless it is the `COMMIT` that fails and the
engine lets the transaction stand. -/
theorem runRecovery_inside (hopen : db.saved = none) (hfails : FailsOnlyAt (k + 1) fault db)
    (h : runRecovery db = (.error e, db')) :
    (db'.content = db.content ∧ db'.saved = none) ∧
        ¬(k + 1 = db.content.commitIndex ∧ fault.rollsBack = false) ∨
      db'.saved ≠ none ∧ k + 1 = db.content.commitIndex ∧ fault.rollsBack = false := by
  have hbegin := Connection.begin_of_clear (by simpa using hfails 0) hopen
  have hcontent : db.begin.2.content = db.content := by rw [hbegin]; rfl
  have hsaved : db.begin.2.saved = some db.begin.2.content := by rw [hcontent, hbegin]
  have hahead : FailsOnlyAt k fault db.begin.2 := by
    intro j
    rw [hbegin]
    show db.faults (db.issued + 1 + j) = _
    rw [Nat.add_assoc, Nat.add_comm 1 j, hfails]
    simp
  simp only [Tables.commitIndex, Nat.add_right_cancel_iff, ← hcontent]
  rcases runRecovery_eq_error h with ⟨e', db₁, hsweep, rfl⟩ | ⟨out, db₁, f, hsweep, hcommit⟩
  · obtain ⟨hrestored, hbefore⟩ := sweep_error_restores hsaved hahead hsweep
    exact .inl ⟨hrestored, fun hlast => Nat.ne_of_lt hbefore hlast.1⟩
  · exact commit_error_restores hsaved hahead hsweep hcommit

/-- After one failed statement a recovery that returns an error has left everything as it was,
unless the failure was that of `BEGIN` or of a `COMMIT` that the transaction survives. -/
theorem runRecovery_atomic_iff (hopen : db.saved = none) (hfails : FailsOnlyAt k fault db)
    (h : runRecovery db = (.error e, db')) :
    (db'.content = db.content ∧ db'.saved = none) ↔
      ¬(k = 0 ∧ db.content.Dangles) ∧
        ¬(k = db.content.commitIndex ∧ fault.rollsBack = false) := by
  cases k with
  | zero =>
      obtain ⟨hcontent, hsaved⟩ := runRecovery_outside hopen hfails h
      rw [hcontent, Tables.repaired_eq_self_iff]
      simp [hsaved, Tables.commitIndex]
  | succ k =>
      obtain ⟨hrestored, hcommit⟩ | ⟨hstands, hcommit⟩ := runRecovery_inside hopen hfails h
      · exact iff_of_true hrestored ⟨fun hbegin => Nat.succ_ne_zero k hbegin.1, hcommit⟩
      · exact iff_of_false (fun hrestored => hstands hrestored.2) fun hnot => hnot.2 hcommit

end Failure

def busy : Fault Bytes := { message := ascii "database is locked" }

/-- The crashed database, with one statement that finds it locked. -/
def lockedAt (k : Nat) : Database where
  content := crashed
  faults := fun j => if j = k then some busy else none

theorem lockedAt_failsOnlyAt (k : Nat) : FailsOnlyAt k busy (lockedAt k) := by
  intro j
  show (if 0 + j = k then some busy else none) = _
  rw [Nat.zero_add]

theorem runRecovery_atomic_iff_lockedRead : ∃ db' : Database,
    runRecovery (lockedAt 1) = (.error ⟨ascii "sessions_open_no_ended_at step"⟩, db') ∧
      db'.content = crashed ∧ db'.saved = none := by
  obtain ⟨db', hrun⟩ : ∃ db' : Database,
      runRecovery (lockedAt 1) = (.error ⟨ascii "sessions_open_no_ended_at step"⟩, db') := ⟨_, rfl⟩
  exact ⟨db', hrun,
    (runRecovery_atomic_iff rfl (lockedAt_failsOnlyAt 1) hrun).mpr ⟨by simp, by decide⟩⟩

/-- The session is closed and the turn marked, outside of any transaction; then the `COMMIT` is
refused, and the error comes with the changes. -/
theorem lockedBegin_not_atomic : ∃ db' : Database,
    (lockedAt 0).saved = none ∧ FailsOnlyAt 0 busy (lockedAt 0) ∧
      runRecovery (lockedAt 0) =
        (.error ⟨ascii "sqlite exec: cannot commit - no transaction is active"⟩, db') ∧
      ¬(db'.content = crashed ∧ db'.saved = none) := by
  obtain ⟨db', hrun, hclosed⟩ : ∃ db' : Database, runRecovery (lockedAt 0) =
      (.error ⟨ascii "sqlite exec: cannot commit - no transaction is active"⟩, db') ∧
        db'.content.sessions.rows = [{ id := 1, startedAt := 1000, endedAt := some 2000 }] :=
    ⟨_, rfl, rfl⟩
  refine ⟨db', rfl, lockedAt_failsOnlyAt 0, hrun, fun hsame => ?_⟩
  rw [hsame.1] at hclosed
  exact absurd hclosed (by decide)

end Acva.Memory

import Acva.Core.Window
import Acva.Memory.SourceHash

/-! # The window behind a source hash

The hash of a range reads the last turns of the session and takes the range from them. New
turns never get into a range that is over, but they push the oldest ones out of the window,
and a range that loses a turn that way has another hash.
-/

namespace Acva.Memory

open Acva.Window

/-- The arguments of `insert_turn`. -/
structure TurnInsert where
  session : SessionId
  role : TurnRole
  text : Option Bytes := none
  lang : Option Bytes := none
  startedAt : UnixMs := 0
  status : TurnStatus := .inProgress

def TurnInsert.row (id : RowId) (i : TurnInsert) : TurnRow where
  id := id
  sessionId := i.session
  role := i.role
  text := i.text
  lang := i.lang
  startedAt := i.startedAt
  status := i.status

namespace TurnTable

def insertAll (inserts : List TurnInsert) (t : TurnTable) : TurnTable :=
  inserts.foldl (fun t i => (t.insertTurn i.session i.role i.text i.lang i.startedAt i.status).2) t

/-- New rows come behind the others, with the next ids. -/
theorem insertAll_rows (inserts : List TurnInsert) (t : TurnTable) :
    ∃ new, (t.insertAll inserts).rows = t.rows ++ new ∧
      new.map (·.id) = List.range' t.nextId inserts.length ∧
      new.map (·.sessionId) = inserts.map (·.session) := by
  induction inserts generalizing t with
  | nil => exact ⟨[], by simp [insertAll], rfl, rfl⟩
  | cons i inserts ih =>
      obtain ⟨new, hrows, hids, hsessions⟩ :=
        ih (t.insertTurn i.session i.role i.text i.lang i.startedAt i.status).2
      refine ⟨i.row t.nextId :: new, hrows.trans (List.append_assoc _ _ _), ?_, ?_⟩
      · rw [List.map_cons, hids, List.length_cons, List.range'_succ]
        rfl
      · rw [List.map_cons, List.map_cons, hsessions]
        rfl

/-- The rows of the session that the window holds and `m` new ones push out of it. -/
def leaving (session : SessionId) (m : Nat) (t : TurnTable) : List TurnRow :=
  ((t.sessionRows session).rtake kSessionLimit.toNat).rdrop (kSessionLimit.toNat - m)

theorem recentTurns_kSessionLimit (session : SessionId) (t : TurnTable) :
    t.recentTurns session kSessionLimit = (t.sessionRows session).rtake kSessionLimit.toNat :=
  recentTurns_of_nonneg (by decide) session t

/-- The window before the new rows, and after. -/
theorem recentTurns_insertAll (session : SessionId) (inserts : List TurnInsert) (t : TurnTable) :
    ∃ kept new, t.recentTurns session kSessionLimit =
        t.leaving session (inserts.countP (·.session = session)) ++ kept ∧
      (t.insertAll inserts).recentTurns session kSessionLimit = kept ++ new ∧
      ∀ r ∈ new, t.nextId ≤ r.id ∧ r.id < t.nextId + inserts.length := by
  obtain ⟨new, hrows, hids, hsessions⟩ := insertAll_rows inserts t
  let own := new.filter fun r => r.sessionId = session
  have hown : (t.insertAll inserts).sessionRows session = t.sessionRows session ++ own := by
    simp only [sessionRows, hrows, List.filter_append, own]
  have hcount : own.length = inserts.countP (·.session = session) := by
    have hmap := congrArg (List.countP (· = session)) hsessions
    rw [List.countP_map, List.countP_map] at hmap
    rw [← List.countP_eq_length_filter]
    exact hmap
  refine ⟨(t.sessionRows session).rtake (kSessionLimit.toNat - own.length),
    own.rtake kSessionLimit.toNat, ?_, ?_, ?_⟩
  · rw [recentTurns_kSessionLimit, ← hcount,
      ← rtake_rtake_of_le (Nat.sub_le kSessionLimit.toNat own.length), leaving, rdrop_append_rtake]
  · rw [recentTurns_kSessionLimit, hown, rtake_append]
  · intro r hr
    have hmem : r ∈ new := List.mem_of_mem_filter (List.mem_of_mem_drop hr)
    have hid : r.id ∈ List.range' t.nextId inserts.length := by
      rw [← hids]
      exact List.mem_map_of_mem hmem
    exact List.mem_range'_1.mp hid

end TurnTable

/-! ## The text of the window -/

theorem sourceText_append (rangeStart rangeEnd : Int) (rs rs' : List TurnRow) :
    sourceText rangeStart rangeEnd (rs ++ rs') =
      sourceText rangeStart rangeEnd rs ++ sourceText rangeStart rangeEnd rs' := by
  simp only [sourceText, List.filter_append, List.flatMap_append]

theorem sourceText_of_outside {rangeStart rangeEnd : Int} {rs : List TurnRow}
    (h : ∀ r ∈ rs, (r.id : Int) < rangeStart ∨ rangeEnd < r.id) :
    sourceText rangeStart rangeEnd rs = [] := by
  unfold sourceText
  rw [List.filter_eq_nil_iff.mpr fun r hr => by simpa only [decide_eq_true_eq, not_not] using h r hr]
  rfl

/-- The hash stays exactly if the lines that the range loses hash like no text. -/
theorem fnv1a64_insertAll_iff {rangeStart rangeEnd : Int} (session : SessionId)
    (inserts : List TurnInsert) (t : TurnTable)
    (hout : ∀ i : Nat, i < inserts.length →
      ((t.nextId + i : Nat) : Int) < rangeStart ∨ rangeEnd < ((t.nextId + i : Nat) : Int)) :
    fnv1a64 (sourceText rangeStart rangeEnd
        ((t.insertAll inserts).recentTurns session kSessionLimit)) =
      fnv1a64 (sourceText rangeStart rangeEnd (t.recentTurns session kSessionLimit)) ↔
      fnv1a64 (sourceText rangeStart rangeEnd
        (t.leaving session (inserts.countP (·.session = session)))) = fnv1a64 [] := by
  obtain ⟨kept, new, hbefore, hafter, hnew⟩ := t.recentTurns_insertAll session inserts
  have houtside : sourceText rangeStart rangeEnd new = [] := by
    refine sourceText_of_outside fun r hr => ?_
    obtain ⟨hle, hlt⟩ := hnew r hr
    have hid := hout (r.id - t.nextId) (Nat.sub_lt_left_of_lt_add hle hlt)
    rwa [Nat.add_sub_cancel' hle] at hid
  rw [hbefore, hafter, sourceText_append, sourceText_append, houtside, List.append_nil, eq_comm]
  exact fnv1a64_append_eq_iff _ _

theorem fnv1a64_ne_nil (s : Bytes) : fnv1a64 s ≠ [] := by
  intro h
  have hlength := congrArg List.length h
  simp [fnv1a64, hex16] at hlength

/-! ## Going on with a conversation -/

def Repository.insertTurns (inserts : List TurnInsert) (repo : Repository) : Repository :=
  { repo with turns := repo.turns.insertAll inserts }

/-- The new rows do not lie in the range. -/
def BesideRange (rangeStart rangeEnd : Int) (inserts : List TurnInsert) (repo : Repository) : Prop :=
  ∀ i : Nat, i < inserts.length →
    ((repo.turns.nextId + i : Nat) : Int) < rangeStart ∨
      rangeEnd < ((repo.turns.nextId + i : Nat) : Int)

/-- The lines that the range loses, if it loses any, hash like no text. -/
def LosesNothing (turnsOk : Bool) (session : SessionId) (rangeStart rangeEnd : Int)
    (inserts : List TurnInsert) (repo : Repository) : Prop :=
  turnsOk = true → fnv1a64 (sourceText rangeStart rangeEnd
    (repo.turns.leaving session (inserts.countP (·.session = session)))) = fnv1a64 []

/-- The source hash stays, and a summary fresh before is not called stale, exactly if no turn of
the range is pushed out of the window, collisions apart. -/
theorem computeSourceHash_insertTurns_iff (turnsOk : Bool) (session : SessionId)
    {rangeStart rangeEnd : Int} {inserts : List TurnInsert} {repo : Repository}
    (hout : BesideRange rangeStart rangeEnd inserts repo) :
    (computeSourceHash turnsOk session rangeStart rangeEnd (repo.insertTurns inserts) =
        computeSourceHash turnsOk session rangeStart rangeEnd repo ↔
      LosesNothing turnsOk session rangeStart rangeEnd inserts repo) ∧
    ∀ s : SummaryRow, s.sourceHash = computeSourceHash true session rangeStart rangeEnd repo →
      (s.isStale (computeSourceHash turnsOk session rangeStart rangeEnd
          (repo.insertTurns inserts)) = false ↔
        LosesNothing turnsOk session rangeStart rangeEnd inserts repo) := by
  have hstays := fnv1a64_insertAll_iff session inserts repo.turns hout
  cases turnsOk with
  | false =>
      have hnothing : LosesNothing false session rangeStart rangeEnd inserts repo :=
        fun hok => absurd hok Bool.false_ne_true
      have hempty : ∀ repo : Repository,
          computeSourceHash false session rangeStart rangeEnd repo = [] := fun _ => rfl
      rw [hempty, hempty]
      exact ⟨iff_of_true rfl hnothing, fun s _ => iff_of_true rfl hnothing⟩
  | true =>
      have hiff : LosesNothing true session rangeStart rangeEnd inserts repo ↔ _ :=
        ⟨fun h => h rfl, fun h _ => h⟩
      rw [hiff]
      refine ⟨hstays, fun s hs => ?_⟩
      rw [← hstays]
      simp only [SummaryRow.isStale, hs, computeSourceHash, if_true]
      simp [fnv1a64_ne_nil, Repository.insertTurns]

/-- A session of `n` turns. -/
def longSession (n : Nat) : Repository where
  turns :=
    { rows := (List.range' 1 n).map fun id =>
        { id := id, sessionId := 1, role := .user, text := some (ascii "hi"), status := .committed }
      nextId := n + 1
      sorted := by
        rw [List.pairwise_map]
        exact List.pairwise_lt_range' ..
      bounded := by
        intro r hr
        obtain ⟨id, hid, rfl⟩ := List.mem_map.mp hr
        exact Nat.lt_of_lt_of_eq (List.mem_range'_1.mp hid).2 (Nat.add_comm 1 n) }

def oneMore : List TurnInsert := [{ session := 1, role := .user, text := some (ascii "hi") }]

theorem computeSourceHash_insertTurns_iff_shortSession :
    BesideRange 1 1 oneMore (longSession 2) ∧
      computeSourceHash true 1 1 1 ((longSession 2).insertTurns oneMore) =
        computeSourceHash true 1 1 1 (longSession 2) := by
  have hout : BesideRange 1 1 oneMore (longSession 2) := by
    intro i hi
    right
    show (1 : Int) < ((3 + i : Nat) : Int)
    omega
  exact ⟨hout, (computeSourceHash_insertTurns_iff true 1 hout).1.mpr fun _ => by decide⟩

/-- The first turn of a full window is the one that leaves it. -/
theorem longSession_leaving {n : Nat} (h : kSessionLimit.toNat = n + 1) :
    (longSession (n + 1)).turns.leaving 1 1 =
      [{ id := 1, sessionId := 1, role := .user, text := some (ascii "hi"),
         status := .committed }] := by
  have hown : (longSession (n + 1)).turns.sessionRows 1 = (longSession (n + 1)).turns.rows := by
    refine List.filter_eq_self.mpr fun r hr => ?_
    obtain ⟨id, -, rfl⟩ := List.mem_map.mp hr
    rfl
  have hlength : (longSession (n + 1)).turns.rows.length = n + 1 := by
    simp [longSession]
  rw [TurnTable.leaving, hown, h, List.rtake, hlength, Nat.sub_self, List.drop_zero, List.rdrop,
    hlength, Nat.add_sub_cancel, Nat.add_sub_cancel_left]
  simp only [longSession, List.range'_succ, List.map_cons, List.take_succ_cons, List.take_zero]

/-- With its turn 100001 a session forgets the turn that its first summary was made from. -/
theorem fullWindow_hash_changes :
    BesideRange 1 1 oneMore (longSession 100000) ∧
      computeSourceHash true 1 1 1 ((longSession 100000).insertTurns oneMore) ≠
        computeSourceHash true 1 1 1 (longSession 100000) := by
  have hout : BesideRange 1 1 oneMore (longSession 100000) := by
    intro i hi
    right
    show (1 : Int) < ((100001 + i : Nat) : Int)
    omega
  refine ⟨hout, fun heq => ?_⟩
  have hstays := (fnv1a64_insertAll_iff 1 oneMore (longSession 100000).turns hout).mp heq
  rw [show oneMore.countP (·.session = 1) = 1 from rfl,
    longSession_leaving (show kSessionLimit.toNat = 99999 + 1 from rfl)] at hstays
  exact absurd hstays (by decide)

end Acva.Memory

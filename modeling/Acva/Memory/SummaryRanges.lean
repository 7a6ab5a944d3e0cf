import Acva.Core.Runs
import Acva.Core.Tiling
import Acva.Memory.Summarizer
import Mathlib.Tactic.Set

/-! # The ranges of the summaries

The worker computes a range from one job's snapshot and has another job store it, with
an LLM call in between. Nobody else stores summaries, so the snapshot stays right; but a
failed read of the latest summary passes for there being none, and the range then
begins at 1 again.
-/

namespace Acva.Memory

open Runs Tiling

/-- The summarizer and the database. -/
structure SummaryHost where
  repo : Repository := {}
  summarizer : Summarizer := {}

inductive SummaryAction
  /-- The row of a turn is inserted. -/
  | insertTurn (job : InsertTurnJob) (insertOk statusOk : Bool) (now : UnixMs)
  | setTurnStatus (id : RowId) (status : TurnStatus) (endedAt : Option UnixMs)
      (interruptedAt : Option Int) (text : Option Bytes)
  | setSession (session : SessionId)
  | finished (e : LlmFinished)
  | checkCount
  | triggerNow
  /-- `stop()` asks the worker to return. -/
  | stop
  | takeJob
  | loadSession
  | submitRead (accepted : Bool)
  /-- The memory thread runs the read job. -/
  | readRange (summaryOk turnsOk : Bool)
  | llmFinished (tokens : List Bytes) (error : Bool)
  | submitWrite (accepted : Bool)
  /-- The memory thread runs the write job. -/
  | store (turnsOk insertOk : Bool) (now : UnixMs)
  | endRound
  /-- The process ends, in whatever way, and is started again with its database. -/
  | restart (cfg : SummaryConfig)
deriving DecidableEq, Repr

namespace SummaryHost

def withSummarizer (h : SummaryHost) (s : Option Summarizer) : Option SummaryHost :=
  s.map fun summarizer => { h with summarizer := summarizer }

def step (writeJson : SummaryRequest → Option Bytes) (h : SummaryHost) :
    SummaryAction → Option SummaryHost
  | .insertTurn job insertOk statusOk now =>
      some { h with
        repo := { h.repo with turns := job.exec insertOk statusOk now h.repo.turns } }
  | .setTurnStatus id status endedAt interruptedAt text =>
      some { h with
        repo := { h.repo with
          turns := h.repo.turns.setTurnStatus id status endedAt interruptedAt text } }
  | .setSession session => some { h with summarizer := { h.summarizer with session := session } }
  | .finished e => h.withSummarizer (h.summarizer.onEvent e)
  | .checkCount => h.withSummarizer h.summarizer.checkCount
  | .triggerNow => some { h with summarizer := h.summarizer.triggerNow }
  | .stop => some { h with summarizer := { h.summarizer with stopping := true } }
  | .takeJob => h.withSummarizer h.summarizer.takeJob
  | .loadSession => h.withSummarizer h.summarizer.loadSession
  | .submitRead accepted => h.withSummarizer (h.summarizer.submitRead accepted)
  | .readRange summaryOk turnsOk =>
      match h.summarizer.worker with
      | .reading session =>
          h.withSummarizer (h.summarizer.onRange writeJson
            (Memory.readRange session summaryOk turnsOk h.repo))
      | _ => none
  | .llmFinished tokens error => h.withSummarizer (h.summarizer.onFinished tokens error)
  | .submitWrite accepted => h.withSummarizer (h.summarizer.submitWrite accepted)
  | .store turnsOk insertOk now =>
      match h.summarizer.worker with
      | .writing draft =>
          let (stored, repo) := draft.store turnsOk insertOk now h.repo
          (h.summarizer.onStored stored).map fun summarizer =>
            { repo := repo, summarizer := summarizer }
      | _ => none
  | .endRound => h.withSummarizer h.summarizer.endRound
  | .restart cfg => some { h with summarizer := { cfg := cfg } }

/-- Whether the read of the latest summary failed in the last snapshot. -/
def note (failed : Bool) (_ : SummaryHost) : SummaryAction → Bool
  | .readRange summaryOk _ => !summaryOk
  | _ => failed

/-- Ranges of one session have no turn in common, and each begins right after the largest end
already stored, at 1 when there is none. -/
structure Tiles (summaries : List SummaryRow) : Prop where
  disjoint : summaries.Pairwise fun a b => a.sessionId = b.sessionId →
    ∀ t : Int, ¬ ((a.rangeStartTurn ≤ t ∧ t ≤ a.rangeEndTurn) ∧
      (b.rangeStartTurn ≤ t ∧ t ≤ b.rangeEndTurn))
  contiguous : Contiguous SummaryRow.sessionId SummaryRow.rangeStartTurn SummaryRow.rangeEndTurn summaries

theorem tiles_iff {summaries : List SummaryRow} : Tiles summaries ↔
    Contiguous SummaryRow.sessionId SummaryRow.rangeStartTurn SummaryRow.rangeEndTurn summaries := by
  refine ⟨fun h => h.contiguous, fun h => ⟨(Contiguous.pairwise h).imp ?_, h⟩⟩
  rintro a b hbefore hsession t ⟨⟨-, hle⟩, hge, -⟩
  have hlt := hbefore hsession
  omega

/-- A summary is stored only if its snapshot's read of the latest summary succeeded, or if the
session has no summary yet. -/
def LatestKnown (h : SummaryHost) (failed : Bool) : SummaryAction → Prop
  | .store _ insertOk _ =>
      match h.summarizer.worker with
      | .writing draft => insertOk = true → failed = true →
          ∀ s ∈ h.repo.summaries, s.sessionId ≠ draft.session
      | _ => True
  | _ => True

instance (h : SummaryHost) (failed : Bool) (a : SummaryAction) :
    Decidable (h.LatestKnown failed a) := by
  unfold LatestKnown
  split
  · split <;> infer_instance
  · infer_instance

end SummaryHost

/-! ## The latest summary -/

theorem latestSummary_eq_some {session : SessionId} {repo : Repository} {last : SummaryRow}
    (h : repo.latestSummary session = some last) :
    (last ∈ repo.summaries ∧ last.sessionId = session) ∧
      ∀ s ∈ repo.summaries, s.sessionId = session → s.rangeEndTurn ≤ last.rangeEndTurn := by
  unfold Repository.latestSummary at h
  set own := repo.summaries.filter fun s => s.sessionId = session with hown
  set le : SummaryRow → SummaryRow → Bool := fun a b => b.rangeEndTurn ≤ a.rangeEndTurn with hle
  have hsorted : (own.mergeSort le).Pairwise fun a b => le a b = true := by
    refine List.pairwise_mergeSort ?_ ?_ own
    · intro a b c hab hbc
      simp only [hle, decide_eq_true_eq] at hab hbc ⊢
      omega
    · intro a b
      simp only [hle, Bool.or_eq_true, decide_eq_true_eq]
      omega
  obtain ⟨rest, hrest⟩ := List.head?_eq_some_iff.mp h
  rw [hrest] at hsorted
  have hmem : ∀ s, s ∈ last :: rest ↔ s ∈ own := by
    intro s
    rw [← hrest]
    exact List.mem_mergeSort
  have hlast : last ∈ own := (hmem last).mp List.mem_cons_self
  refine ⟨by simpa [hown] using hlast, fun s hs hsession => ?_⟩
  rcases List.mem_cons.mp ((hmem s).mpr (List.mem_filter.mpr ⟨hs, by simpa using hsession⟩)) with
    rfl | hin
  · exact Int.le_refl _
  · simpa [hle] using (List.pairwise_cons.mp hsorted).1 s hin

theorem latestSummary_eq_none {session : SessionId} {repo : Repository}
    (h : repo.latestSummary session = none) : ∀ s ∈ repo.summaries, s.sessionId ≠ session := by
  unfold Repository.latestSummary at h
  have hnone : repo.summaries.filter (fun s => s.sessionId = session) = [] := by
    refine List.length_eq_zero_iff.mp ?_
    rw [← List.length_mergeSort, List.head?_eq_none_iff.mp h]
    rfl
  intro s hs
  simpa using List.filter_eq_nil_iff.mp hnone s hs

/-- Where the next summary of the session begins, by what is stored. -/
def nextSummaryStart (session : SessionId) (summaries : List SummaryRow) : Int :=
  nextStart SummaryRow.sessionId SummaryRow.rangeEndTurn session summaries

theorem lt_nextSummaryStart {s : SummaryRow} {summaries : List SummaryRow} (hs : s ∈ summaries) :
    s.rangeEndTurn < nextSummaryStart s.sessionId summaries :=
  lt_nextStart hs

/-- A successful read has the range begin right after what is stored. -/
theorem readRange_start (session : SessionId) (turnsOk : Bool) (repo : Repository) :
    (readRange session true turnsOk repo).rangeStart = nextSummaryStart session repo.summaries := by
  cases hlast : repo.latestSummary session with
  | none =>
      rw [nextSummaryStart, nextStart_eq_one (latestSummary_eq_none hlast)]
      simp [readRange, hlast]
  | some last =>
      obtain ⟨⟨hmem, hsession⟩, hmax⟩ := latestSummary_eq_some hlast
      rw [nextSummaryStart, nextStart_of_max ⟨last, hmem, hsession, rfl⟩ hmax]
      simp [readRange, hlast]

/-- A failed one has it begin at 1. -/
theorem readRange_start_failed (session : SessionId) (turnsOk : Bool) (repo : Repository) :
    (readRange session false turnsOk repo).rangeStart = 1 := rfl

/-- The range that the worker is about to store. -/
def WorkerPc.claim : WorkerPc → Option (SessionId × Int × Int)
  | .calling session range _ => some (session, range.rangeStart, range.rangeEnd)
  | .drafted draft => some (draft.session, draft.rangeStart, draft.rangeEnd)
  | .writing draft => some (draft.session, draft.rangeStart, draft.rangeEnd)
  | _ => none

/-- A step of the worker drops the range, or keeps it. -/
def Summarizer.Carries (s s' : Summarizer) : Prop :=
  s'.worker.claim = none ∨ s'.worker.claim = s.worker.claim

namespace Summarizer

variable {s s' : Summarizer}

theorem onEvent_carries {e : LlmFinished} (h : s.onEvent e = some s') : s.Carries s' := by
  unfold onEvent at h
  split at h
  · cases h
  · split at h
    · cases h
      exact .inr rfl
    · cases h
      exact .inr rfl

theorem checkCount_carries (h : s.checkCount = some s') : s.Carries s' := by
  unfold checkCount at h
  split at h
  · cases h
    right
    split <;> rfl
  · cases h

theorem takeJob_carries (h : s.takeJob = some s') : s.Carries s' := by
  unfold takeJob at h
  split at h
  · split at h
    · cases h
      exact .inl rfl
    · split at h
      · cases h
        exact .inl rfl
      · cases h
  · cases h

theorem loadSession_carries (h : s.loadSession = some s') : s.Carries s' := by
  unfold loadSession at h
  split at h
  · split at h
    · cases h
      exact .inl rfl
    · cases h
      exact .inl rfl
  · cases h

theorem submitRead_carries {accepted : Bool} (h : s.submitRead accepted = some s') :
    s.Carries s' := by
  unfold submitRead at h
  split at h
  · cases h
    left
    dsimp only
    split <;> rfl
  · cases h

theorem onFinished_carries {tokens : List Bytes} {error : Bool}
    (h : s.onFinished tokens error = some s') : s.Carries s' := by
  unfold onFinished at h
  split at h
  next hpc =>
    cases h
    exact .inr (by rw [hpc]; rfl)
  · cases h

theorem submitWrite_carries {accepted : Bool} (h : s.submitWrite accepted = some s') :
    s.Carries s' := by
  unfold submitWrite at h
  split at h
  next hpc =>
    cases h
    cases accepted with
    | true => exact .inr (by rw [hpc]; rfl)
    | false => exact .inl rfl
  · cases h

theorem endRound_carries (h : s.endRound = some s') : s.Carries s' := by
  unfold endRound at h
  split at h
  · cases h
    exact .inl rfl
  · cases h
    exact .inl rfl
  · cases h

/-- What the worker makes of its snapshot begins and ends where the snapshot says. -/
theorem onRange_claim {writeJson : SummaryRequest → Option Bytes} {range : SummaryRange}
    {session : SessionId} (hpc : s.worker = .reading session)
    (h : s.onRange writeJson range = some s') : s'.worker.claim = none ∨
      (s'.worker.claim = some (session, range.rangeStart, range.rangeEnd) ∧
        range.rangeStart ≤ range.rangeEnd) := by
  simp only [onRange, hpc] at h
  split at h
  · cases h
    exact .inl rfl
  next hnew =>
    cases h
    refine .inr ⟨rfl, ?_⟩
    by_contra hle
    exact hnew (.inl (Int.not_le.mp hle))

end Summarizer

namespace SummaryHost

/-! ## One step -/

/-- What a step does to the summaries and to the range that the worker holds. -/
inductive SummaryStep (h : SummaryHost) : SummaryAction → SummaryHost → Prop
  | keeps (a : SummaryAction) (h' : SummaryHost)
      (hsummaries : h'.repo.summaries = h.repo.summaries)
      (hcarries : h.summarizer.Carries h'.summarizer) (hnote : ∀ failed, note failed h a = failed)
      (hstore : ∀ turnsOk insertOk now, a ≠ .store turnsOk insertOk now) : SummaryStep h a h'
  | reads (summaryOk turnsOk : Bool) (session : SessionId) (h' : SummaryHost)
      (hsummaries : h'.repo.summaries = h.repo.summaries)
      (hclaim : h'.summarizer.worker.claim = none ∨ ∃ last,
        h'.summarizer.worker.claim =
          some (session, (Memory.readRange session summaryOk turnsOk h.repo).rangeStart, last) ∧
        (Memory.readRange session summaryOk turnsOk h.repo).rangeStart ≤ last) :
      SummaryStep h (.readRange summaryOk turnsOk) h'
  | stores (turnsOk insertOk : Bool) (now : UnixMs) (draft : SummaryDraft) (row : SummaryRow)
      (h' : SummaryHost) (hpc : h.summarizer.worker = .writing draft)
      (hclaim : h'.summarizer.worker.claim = none)
      (hsummaries : h'.repo.summaries =
        if insertOk = true then h.repo.summaries ++ [row] else h.repo.summaries)
      (hrow : row.sessionId = draft.session ∧ row.rangeStartTurn = draft.rangeStart ∧
        row.rangeEndTurn = draft.rangeEnd) : SummaryStep h (.store turnsOk insertOk now) h'

section Step

variable {writeJson : SummaryRequest → Option Bytes} {h h' : SummaryHost} {a : SummaryAction}
  {failed : Bool}

/-- A step of the worker alone keeps the database. -/
theorem keeps_of_worker {s : Option Summarizer}
    (hs : h.withSummarizer s = some h')
    (hcarries : ∀ s', s = some s' → h.summarizer.Carries s')
    (hnote : ∀ failed, note failed h a = failed)
    (hstore : ∀ turnsOk insertOk now, a ≠ .store turnsOk insertOk now) : SummaryStep h a h' := by
  obtain ⟨s', hs', rfl⟩ := Option.map_eq_some_iff.mp hs
  exact .keeps a _ rfl (hcarries s' hs') hnote hstore

theorem step_eq_some (hs : h.step writeJson a = some h') : SummaryStep h a h' := by
  cases a with
  | insertTurn job insertOk statusOk now =>
      cases hs
      exact .keeps _ _ rfl (.inr rfl) (fun _ => rfl) nofun
  | setTurnStatus id status endedAt interruptedAt text =>
      cases hs
      exact .keeps _ _ rfl (.inr rfl) (fun _ => rfl) nofun
  | setSession session =>
      cases hs
      exact .keeps _ _ rfl (.inr rfl) (fun _ => rfl) nofun
  | triggerNow =>
      cases hs
      exact .keeps _ _ rfl (.inr rfl) (fun _ => rfl) nofun
  | stop =>
      cases hs
      exact .keeps _ _ rfl (.inr rfl) (fun _ => rfl) nofun
  | restart cfg =>
      cases hs
      exact .keeps _ _ rfl (.inl rfl) (fun _ => rfl) nofun
  | finished e =>
      exact keeps_of_worker hs (fun _ => Summarizer.onEvent_carries) (fun _ => rfl) nofun
  | checkCount =>
      exact keeps_of_worker hs (fun _ => Summarizer.checkCount_carries) (fun _ => rfl) nofun
  | takeJob => exact keeps_of_worker hs (fun _ => Summarizer.takeJob_carries) (fun _ => rfl) nofun
  | loadSession =>
      exact keeps_of_worker hs (fun _ => Summarizer.loadSession_carries) (fun _ => rfl) nofun
  | submitRead accepted =>
      exact keeps_of_worker hs (fun _ => Summarizer.submitRead_carries) (fun _ => rfl) nofun
  | llmFinished tokens error =>
      exact keeps_of_worker hs (fun _ => Summarizer.onFinished_carries) (fun _ => rfl) nofun
  | submitWrite accepted =>
      exact keeps_of_worker hs (fun _ => Summarizer.submitWrite_carries) (fun _ => rfl) nofun
  | endRound => exact keeps_of_worker hs (fun _ => Summarizer.endRound_carries) (fun _ => rfl) nofun
  | readRange summaryOk turnsOk =>
      simp only [step] at hs
      split at hs
      next session hpc =>
        obtain ⟨s', hs', rfl⟩ := Option.map_eq_some_iff.mp hs
        refine .reads summaryOk turnsOk session _ rfl ?_
        rcases Summarizer.onRange_claim hpc hs' with hnone | ⟨hsome, hle⟩
        · exact .inl hnone
        · exact .inr ⟨_, hsome, hle⟩
      next => cases hs
  | store turnsOk insertOk now =>
      simp only [step] at hs
      split at hs
      next draft hpc =>
        cases insertOk with
        | true =>
            obtain ⟨s', hs', rfl⟩ := Option.map_eq_some_iff.mp hs
            simp only [Summarizer.onStored, hpc, Option.some.injEq] at hs'
            subst hs'
            exact .stores turnsOk true now draft _ _ hpc rfl rfl ⟨rfl, rfl, rfl⟩
        | false =>
            obtain ⟨s', hs', rfl⟩ := Option.map_eq_some_iff.mp hs
            simp only [Summarizer.onStored, hpc, Option.some.injEq] at hs'
            subst hs'
            refine .stores turnsOk false now draft
              { sessionId := draft.session, rangeStartTurn := draft.rangeStart,
                rangeEndTurn := draft.rangeEnd } _ hpc rfl rfl ⟨rfl, rfl, rfl⟩
      next => cases hs

/-- Where a range begins that was computed from a snapshot, and what is stored since then. -/
def Begins (failed : Bool) (session : SessionId) (start : Int) (summaries : List SummaryRow) :
    Prop :=
  start = if failed = true then 1 else nextSummaryStart session summaries

/-- Stored ranges are not empty and begin at 1 at the earliest; so is the one that the worker
holds, and it begins where its snapshot says. -/
structure RangeInv (h : SummaryHost) (failed : Bool) : Prop where
  stored : ∀ s ∈ h.repo.summaries, 1 ≤ s.rangeEndTurn
  claimed : ∀ session start last, h.summarizer.worker.claim = some (session, start, last) →
    1 ≤ last ∧ Begins failed session start h.repo.summaries

theorem one_le_nextSummaryStart {session : SessionId} {summaries : List SummaryRow}
    (hstored : ∀ s ∈ summaries, 1 ≤ s.rangeEndTurn) : 1 ≤ nextSummaryStart session summaries := by
  unfold nextSummaryStart
  by_cases hnone : ∀ s ∈ summaries, s.sessionId ≠ session
  · rw [nextStart_eq_one hnone]
  · push Not at hnone
    obtain ⟨s, hs, rfl⟩ := hnone
    have hlt := lt_nextSummaryStart hs
    have hpos := hstored s hs
    unfold nextSummaryStart at hlt
    omega

/-- The next range begins at 1 exactly if the session has no summary. -/
theorem nextSummaryStart_eq_one_iff {session : SessionId} {summaries : List SummaryRow}
    (hstored : ∀ s ∈ summaries, 1 ≤ s.rangeEndTurn) :
    1 = nextSummaryStart session summaries ↔ ∀ s ∈ summaries, s.sessionId ≠ session := by
  refine ⟨fun h s hs hsession => ?_, fun h => (nextStart_eq_one h).symm⟩
  have hlt := lt_nextSummaryStart hs
  have hpos := hstored s hs
  rw [hsession] at hlt
  omega

theorem RangeInv.step (hi : RangeInv h failed) (hs : h.step writeJson a = some h') :
    RangeInv h' (note failed h a) := by
  cases step_eq_some hs with
  | keeps _ _ hsummaries hcarries hnote _ =>
      rw [hnote]
      refine ⟨by rw [hsummaries]; exact hi.stored, fun session start last hclaim => ?_⟩
      rw [hsummaries]
      rcases hcarries with hnone | hsame
      · rw [hnone] at hclaim
        cases hclaim
      · exact hi.claimed session start last (hsame ▸ hclaim)
  | reads summaryOk turnsOk session _ hsummaries hclaim' =>
      refine ⟨by rw [hsummaries]; exact hi.stored, fun session' start last hclaim => ?_⟩
      rcases hclaim' with hnone | ⟨last', hsome, hle⟩
      · rw [hnone] at hclaim
        cases hclaim
      · rw [hsome] at hclaim
        cases hclaim
        rw [hsummaries]
        have hbegins : Begins (!summaryOk) session
            (Memory.readRange session summaryOk turnsOk h.repo).rangeStart h.repo.summaries := by
          cases summaryOk with
          | true => exact readRange_start session turnsOk h.repo
          | false => exact readRange_start_failed session turnsOk h.repo
        have hstart : 1 ≤ (Memory.readRange session summaryOk turnsOk h.repo).rangeStart := by
          rw [hbegins]
          split
          · exact Int.le_refl _
          · exact one_le_nextSummaryStart hi.stored
        exact ⟨Int.le_trans hstart hle, hbegins⟩
  | stores turnsOk insertOk now draft row _ hpc hclaim' hsummaries hrow =>
      refine ⟨?_, fun session start last hclaim => ?_⟩
      · have hlast := (hi.claimed draft.session draft.rangeStart draft.rangeEnd
          (by rw [hpc]; rfl)).1
        rw [hsummaries]
        split
        · intro s hs
          rcases List.mem_append.mp hs with hold | hnew
          · exact hi.stored s hold
          · rw [List.mem_singleton.mp hnew, hrow.2.2]
            exact hlast
        · exact hi.stored
      · rw [hclaim'] at hclaim
        cases hclaim

/-- A step keeps the tiling exactly if what it stores comes from a snapshot that knew. -/
theorem step_tiles_iff (hi : RangeInv h failed) (htiles : Tiles h.repo.summaries)
    (hs : h.step writeJson a = some h') : Tiles h'.repo.summaries ↔ h.LatestKnown failed a := by
  cases step_eq_some hs with
  | keeps _ _ hsummaries _ _ hstore =>
      rw [hsummaries]
      refine iff_of_true htiles ?_
      cases a with
      | store turnsOk insertOk now => exact absurd rfl (hstore turnsOk insertOk now)
      | _ => trivial
  | reads summaryOk turnsOk session _ hsummaries _ =>
      rw [hsummaries]
      exact iff_of_true htiles trivial
  | stores turnsOk insertOk now draft row _ hpc _ hsummaries hrow =>
      simp only [LatestKnown, hpc]
      rw [hsummaries]
      cases insertOk with
      | false => simpa using htiles
      | true =>
          obtain ⟨hsession, hstart, -⟩ := hrow
          have hbegins := (hi.claimed draft.session draft.rangeStart draft.rangeEnd
            (by rw [hpc]; rfl)).2
          rw [if_pos rfl, tiles_iff, contiguous_concat, and_iff_right htiles.contiguous, hstart,
            hsession, hbegins]
          show _ = nextSummaryStart draft.session h.repo.summaries ↔ _
          cases failed with
          | false => simp
          | true => simpa using nextSummaryStart_eq_one_iff hi.stored

/-- Nothing mends a tiling. -/
theorem not_tiles_of_step (hnot : ¬ Tiles h.repo.summaries) (hs : h.step writeJson a = some h') :
    ¬ Tiles h'.repo.summaries := by
  cases step_eq_some hs with
  | keeps _ _ hsummaries _ _ _ => rwa [hsummaries]
  | reads _ _ _ _ hsummaries _ => rwa [hsummaries]
  | stores turnsOk insertOk now draft row _ _ _ hsummaries _ =>
      rw [hsummaries]
      split
      · rw [tiles_iff, contiguous_concat]
        rw [tiles_iff] at hnot
        exact fun h => hnot h.1
      · exact hnot

/-! ## Runs -/

/-- The summaries of a run tile the conversation exactly if each one was stored from a snapshot
whose read of the latest summary had succeeded, or as the first of its session. -/
theorem run_tiles_iff {acts : List SummaryAction}
    (hrun : run (watch (step writeJson) note) ({}, false) acts = some (h, failed)) :
    Tiles h.repo.summaries ↔
      Always (watch (step writeJson) note) (fun w a => w.1.LatestKnown w.2 a) ({}, false) acts := by
  refine run_iff_always (fun w => RangeInv w.1 w.2) (fun w => Tiles w.1.repo.summaries)
    (fun w a w' hi hs => ?_) (fun w a w' hi htiles hs => ?_) (fun w a w' hi hnot hs => ?_) hrun
    ⟨by simp, nofun⟩ (tiles_iff.mpr contiguous_nil)
  · obtain ⟨hstep, hnote⟩ := watch_eq_some.mp hs
    rw [hnote]
    exact hi.step hstep
  · exact step_tiles_iff hi htiles (watch_eq_some.mp hs).1
  · exact not_tiles_of_step hnot (watch_eq_some.mp hs).1

end Step

/-- A user's line is committed. -/
def committed (text : String) : SummaryAction :=
  .insertTurn { session := 1, role := .user, text := ascii text, lang := none, startedAt := 0,
                status := .committed, endedAt := none, interruptedAt := none } true true 0

/-- One summary, up to the jobs' results. -/
def summarize (summaryOk insertOk : Bool) : List SummaryAction :=
  [.triggerNow, .takeJob, .loadSession, .submitRead true, .readRange summaryOk true,
    .llmFinished [ascii "They greet."] false, .submitWrite true, .store true insertOk 0, .endRound]

/-- A second summary after another turn; the read of the latest one ends as `summaryOk` says. -/
def twoSummaries (summaryOk : Bool) : List SummaryAction :=
  [.setSession 1, committed "Hi"] ++ summarize true true ++ [committed "Bye"] ++
    summarize summaryOk true

/-- A JSON string, for texts whose only special character is the line feed. -/
def jsonString (s : Bytes) : Bytes :=
  ascii "\"" ++ s.flatMap (fun c => if c = 10 then ascii "\\n" else [c]) ++ ascii "\""

def jsonMessage (m : SummaryMessage) : Bytes :=
  ascii "\x7b\"role\":" ++ jsonString m.role ++ ascii ",\"content\":" ++ jsonString m.content ++
    ascii "\x7d"

/-- The request as the JSON writer writes it; all requests have the same parameters. -/
def jsonRequest (r : SummaryRequest) : Option Bytes :=
  some <| ascii "\x7b\"model\":" ++ jsonString r.model ++ ascii ",\"messages\":[" ++
    ((r.messages.map jsonMessage).intersperse (ascii ",")).flatten ++
    ascii "],\"temperature\":0.3,\"max_tokens\":200,\"stream\":true\x7d"

/-- Each summary by its session and its first and last turn. -/
def ranges (summaries : List SummaryRow) : List (SessionId × Int × Int) :=
  summaries.map fun s => (s.sessionId, s.rangeStartTurn, s.rangeEndTurn)

theorem run_tiles_iff_twoSummaries :
    ∃ h failed, run (watch (step jsonRequest) note) ({}, false) (twoSummaries true) =
        some (h, failed) ∧
      ranges h.repo.summaries = [(1, 1, 1), (1, 2, 2)] ∧ Tiles h.repo.summaries := by
  have hranges : (run (watch (step jsonRequest) note) ({}, false) (twoSummaries true)).map
      (fun w => ranges w.1.repo.summaries) = some [(1, 1, 1), (1, 2, 2)] := by decide +kernel
  obtain ⟨⟨h, failed⟩, hrun, hranges⟩ := Option.map_eq_some_iff.mp hranges
  exact ⟨h, failed, hrun, hranges, (run_tiles_iff hrun).mpr (by decide +kernel)⟩

/-- Where the read fails the second summary begins at 1 again. -/
theorem failedRead_overlaps :
    ∃ h failed, run (watch (step jsonRequest) note) ({}, false) (twoSummaries false) =
        some (h, failed) ∧
      ranges h.repo.summaries = [(1, 1, 1), (1, 1, 2)] ∧ ¬ Tiles h.repo.summaries := by
  have hranges : (run (watch (step jsonRequest) note) ({}, false) (twoSummaries false)).map
      (fun w => ranges w.1.repo.summaries) = some [(1, 1, 1), (1, 1, 2)] := by decide +kernel
  obtain ⟨⟨h, failed⟩, hrun, hranges⟩ := Option.map_eq_some_iff.mp hranges
  refine ⟨h, failed, hrun, hranges, fun htiles => ?_⟩
  let Apart (a b : SessionId × Int × Int) : Prop := a.1 = b.1 →
    ∀ t : Int, ¬ ((a.2.1 ≤ t ∧ t ≤ a.2.2) ∧ (b.2.1 ≤ t ∧ t ≤ b.2.2))
  have hpairs : (ranges h.repo.summaries).Pairwise Apart := List.pairwise_map.mpr htiles.disjoint
  rw [hranges] at hpairs
  exact (List.pairwise_cons.mp hpairs).1 _ List.mem_cons_self rfl 1 (by decide)

end SummaryHost

end Acva.Memory

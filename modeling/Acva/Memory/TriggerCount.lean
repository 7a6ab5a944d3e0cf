import Acva.Memory.SummaryRanges

/-! # The count that triggers a summary

The handler adds two for every finish that is not cancelled, the worker puts the count back to
zero when it has stored a summary. The finish of the summary's own LLM call is counted like
one of the dialogue; and a finish that comes between the snapshot and the reset is wiped out,
though the summary knows nothing of its turn.
-/

namespace Acva.Memory

open Runs

/-- How many finishes were handled, cancelled ones left out. -/
structure FinishCounts where
  /-- Of the dialogue, since the snapshot of the last summary stored, or since the start. -/
  dialogue : Nat := 0
  /-- Of the dialogue, since the last snapshot. -/
  sinceRead : Nat := 0
  /-- Of the summarizer's own calls, since the last reset. -/
  own : Nat := 0
  /-- Of the dialogue, between the last stored summary's snapshot and the reset after it. -/
  wiped : Nat := 0
deriving DecidableEq, Repr

namespace FinishCounts

def handle (e : LlmFinished) (c : FinishCounts) : FinishCounts :=
  if e.cancelled = true then c
  else if e.turn = kNoTurn then { c with own := c.own + 1 }
  else { c with dialogue := c.dialogue + 1, sinceRead := c.sinceRead + 1 }

/-- A summary is stored, and its snapshot is the last one. -/
def stored (c : FinishCounts) : FinishCounts where
  dialogue := c.sinceRead
  sinceRead := c.sinceRead
  wiped := c.sinceRead

end FinishCounts

/-- What an action tells the counts. -/
def noteFinishes (c : FinishCounts) (h : SummaryHost) : SummaryAction → FinishCounts
  | .finished e => c.handle e
  | .readRange _ _ => { c with sinceRead := 0 }
  | .endRound => if h.summarizer.worker = .returned true then c.stored else c
  | .restart _ => {}
  | _ => c

namespace Summarizer

variable {s s' : Summarizer}

/-- What a step of the summarizer does to its count. -/
theorem onEvent_count {e : LlmFinished} (h : s.onEvent e = some s') :
    s'.turnsSinceSummary = s.turnsSinceSummary + if e.cancelled = true then 0 else 2 := by
  unfold onEvent at h
  split at h
  · cases h
  · split at h
    next hc => cases h; rw [if_pos hc]; rfl
    next hc => cases h; rw [if_neg hc]

theorem endRound_count (h : s.endRound = some s') :
    s'.turnsSinceSummary = if s.worker = .returned true then 0 else s.turnsSinceSummary := by
  unfold endRound at h
  split at h
  next hpc => cases h; rw [if_pos hpc]
  next hpc => cases h; rw [hpc]; rfl
  · cases h

theorem checkCount_count (h : s.checkCount = some s') :
    s'.turnsSinceSummary = s.turnsSinceSummary := by
  unfold checkCount at h
  split at h
  · cases h
    dsimp only
    split <;> rfl
  · cases h

theorem takeJob_count (h : s.takeJob = some s') : s'.turnsSinceSummary = s.turnsSinceSummary := by
  unfold takeJob at h
  split at h
  · split at h
    · cases h
      rfl
    · split at h
      · cases h
        rfl
      · cases h
  · cases h

theorem loadSession_count (h : s.loadSession = some s') :
    s'.turnsSinceSummary = s.turnsSinceSummary := by
  unfold loadSession at h
  split at h
  · split at h <;> cases h <;> rfl
  · cases h

theorem submitRead_count {accepted : Bool} (h : s.submitRead accepted = some s') :
    s'.turnsSinceSummary = s.turnsSinceSummary := by
  unfold submitRead at h
  split at h
  · cases h
    rfl
  · cases h

theorem onRange_count {writeJson : SummaryRequest → Option Bytes} {range : SummaryRange}
    (h : s.onRange writeJson range = some s') : s'.turnsSinceSummary = s.turnsSinceSummary := by
  unfold onRange at h
  split at h
  · dsimp only at h
    split at h <;> cases h <;> rfl
  · cases h

theorem onFinished_count {tokens : List Bytes} {error : Bool}
    (h : s.onFinished tokens error = some s') : s'.turnsSinceSummary = s.turnsSinceSummary := by
  unfold onFinished at h
  split at h
  · cases h
    rfl
  · cases h

theorem submitWrite_count {accepted : Bool} (h : s.submitWrite accepted = some s') :
    s'.turnsSinceSummary = s.turnsSinceSummary := by
  unfold submitWrite at h
  split at h
  · cases h
    rfl
  · cases h

theorem onStored_count {stored : Bool} (h : s.onStored stored = some s') :
    s'.turnsSinceSummary = s.turnsSinceSummary := by
  unfold onStored at h
  split at h
  · cases h
    rfl
  · cases h

end Summarizer

namespace SummaryHost

variable {writeJson : SummaryRequest → Option Bytes} {h h' : SummaryHost} {a : SummaryAction}
  {c : FinishCounts}

/-- What an action does to the count. -/
def countAfter (h : SummaryHost) : SummaryAction → Nat
  | .finished e => h.summarizer.turnsSinceSummary + if e.cancelled = true then 0 else 2
  | .endRound =>
      if h.summarizer.worker = .returned true then 0 else h.summarizer.turnsSinceSummary
  | .restart _ => 0
  | _ => h.summarizer.turnsSinceSummary

theorem withSummarizer_count {s : Option Summarizer} {n : Nat}
    (hs : h.withSummarizer s = some h')
    (hcount : ∀ s', s = some s' → s'.turnsSinceSummary = n) :
    h'.summarizer.turnsSinceSummary = n := by
  obtain ⟨s', hs', rfl⟩ := Option.map_eq_some_iff.mp hs
  exact hcount s' hs'

theorem step_count (hs : h.step writeJson a = some h') :
    h'.summarizer.turnsSinceSummary = h.countAfter a := by
  cases a with
  | insertTurn job insertOk statusOk now => cases hs; rfl
  | setTurnStatus id status endedAt interruptedAt text => cases hs; rfl
  | setSession session => cases hs; rfl
  | triggerNow => cases hs; rfl
  | stop => cases hs; rfl
  | restart cfg => cases hs; rfl
  | finished e => exact withSummarizer_count hs fun _ => Summarizer.onEvent_count
  | checkCount => exact withSummarizer_count hs fun _ => Summarizer.checkCount_count
  | takeJob => exact withSummarizer_count hs fun _ => Summarizer.takeJob_count
  | loadSession => exact withSummarizer_count hs fun _ => Summarizer.loadSession_count
  | submitRead accepted => exact withSummarizer_count hs fun _ => Summarizer.submitRead_count
  | llmFinished tokens error => exact withSummarizer_count hs fun _ => Summarizer.onFinished_count
  | submitWrite accepted => exact withSummarizer_count hs fun _ => Summarizer.submitWrite_count
  | endRound => exact withSummarizer_count hs fun _ => Summarizer.endRound_count
  | readRange summaryOk turnsOk =>
      simp only [step] at hs
      split at hs
      next => exact withSummarizer_count hs fun _ => Summarizer.onRange_count
      next => cases hs
  | store turnsOk insertOk now =>
      simp only [step] at hs
      split at hs
      next =>
        obtain ⟨s', hs', rfl⟩ := Option.map_eq_some_iff.mp hs
        exact Summarizer.onStored_count hs'
      next => cases hs

/-- The count has the summarizer's own finishes in it, and not those that were wiped out. -/
def CountInv (h : SummaryHost) (c : FinishCounts) : Prop :=
  h.summarizer.turnsSinceSummary + 2 * c.wiped = 2 * (c.own + c.dialogue)

theorem CountInv.step (hi : CountInv h c) (hs : h.step writeJson a = some h') :
    CountInv h' (noteFinishes c h a) := by
  have hcount := step_count hs
  unfold CountInv at hi ⊢
  rw [hcount]
  cases a with
  | finished e =>
      simp only [countAfter, noteFinishes, FinishCounts.handle]
      split
      · exact hi
      · split
        · dsimp only
          omega
        · dsimp only
          omega
  | endRound =>
      simp only [countAfter, noteFinishes]
      split
      · simp [FinishCounts.stored]
      · exact hi
  | restart cfg => rfl
  | _ => exact hi

/-- The count is twice the dialogue's finishes since the snapshot exactly if as many own finishes
were counted since the last reset as finishes of the dialogue were wiped out by it. -/
theorem run_count_exact_iff {cfg : SummaryConfig} {repo : Repository} {acts : List SummaryAction}
    (hrun : run (watch (step writeJson) noteFinishes)
      ({ repo := repo, summarizer := { cfg := cfg } }, {}) acts = some (h, c)) :
    h.summarizer.turnsSinceSummary = 2 * c.dialogue ↔ c.own = c.wiped := by
  have hinv : CountInv h c := by
    refine run_preserves (fun w => CountInv w.1 w.2) (fun w a w' hw hs => ?_) hrun ?_
    · obtain ⟨hstep, hnote⟩ := watch_eq_some.mp hs
      rw [hnote]
      exact hw.step hstep
    · rfl
  unfold CountInv at hinv
  omega

/-- A summary while the dialogue goes on: the reply to the next utterance finishes during the
LLM call or after the round. -/
def busySummary (during : Bool) : List SummaryAction :=
  let reply : List SummaryAction := [.finished { turn := 2 }, .checkCount]
  [.setSession 1, committed "Hi", .finished { turn := 1 }, .checkCount, .triggerNow, .takeJob,
    .loadSession, .submitRead true, .readRange true true] ++
    (if during = true then reply else []) ++
    [.llmFinished [ascii "They greet."] false, .finished { turn := kNoTurn }, .checkCount,
      .submitWrite true, .store true true 0, .endRound] ++
    if during = true then [] else reply

theorem run_count_exact_iff_afterRound : ∃ h c,
    run (watch (step jsonRequest) noteFinishes) ({ repo := {}, summarizer := { cfg := {} } }, {})
        (busySummary false) = some (h, c) ∧
      h.summarizer.worker = .waiting ∧ c.dialogue = 1 ∧ h.summarizer.turnsSinceSummary = 2 := by
  have hcounts : (run (watch (step jsonRequest) noteFinishes)
      ({ repo := {}, summarizer := { cfg := {} } }, {}) (busySummary false)).map
        (fun w => (w.1.summarizer.worker, w.2)) =
      some (.waiting, { dialogue := 1, sinceRead := 1 }) := by decide +kernel
  obtain ⟨⟨h, c⟩, hrun, hend⟩ := Option.map_eq_some_iff.mp hcounts
  obtain ⟨hworker, rfl⟩ := Prod.mk.inj hend
  exact ⟨h, _, hrun, hworker, rfl, (run_count_exact_iff hrun).mpr rfl⟩

/-- A reply that finishes during the LLM call is wiped out with those before the snapshot. -/
theorem busySummary_wipes : ∃ h c,
    run (watch (step jsonRequest) noteFinishes) ({ repo := {}, summarizer := { cfg := {} } }, {})
        (busySummary true) = some (h, c) ∧
      h.summarizer.worker = .waiting ∧ c.dialogue = 1 ∧ h.summarizer.turnsSinceSummary = 0 := by
  have hcounts : (run (watch (step jsonRequest) noteFinishes)
      ({ repo := {}, summarizer := { cfg := {} } }, {}) (busySummary true)).map
        (fun w => (w.1.summarizer.worker, w.2.dialogue, w.1.summarizer.turnsSinceSummary)) =
      some (.waiting, 1, 0) := by decide +kernel
  obtain ⟨⟨h, c⟩, hrun, hend⟩ := Option.map_eq_some_iff.mp hcounts
  obtain ⟨hworker, hdialogue, hcount⟩ : _ ∧ _ ∧ _ := by simpa using hend
  exact ⟨h, c, hrun, hworker, hdialogue, hcount⟩

end SummaryHost

end Acva.Memory

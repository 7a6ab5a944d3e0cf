import Mathlib.Algebra.Group.Nat.Defs
import Mathlib.Data.List.Destutter
import Acva.Core.TrailingRun
import Acva.Supervisor.Service

/-! # Health and the probe history

After a result the state is a matter of the failures in a row that the history ends
with. The monitor counts them in 32 bits, so that it forgets `2 ^ 32` of them at a time;
short of that its state is what the history says. The events do not depend on the
count: they follow the states, seen from outside.
-/

namespace Acva.ServiceMonitor

/-- The monitor after a sequence of results, and what it has published. -/
def applyResults :
    List (TimePoint × ProbeResult) → ServiceMonitor → ServiceMonitor × List Event
  | [], m => (m, [])
  | (now, r) :: rs, m =>
      let (m', events) := m.applyResult now r
      let (last, rest) := applyResults rs m'
      (last, events ++ rest)

/-- The public state after each of the results. -/
def publicStates : List (TimePoint × ProbeResult) → ServiceMonitor → List HealthState
  | [], _ => []
  | (now, r) :: rs, m =>
      let m' := (m.applyResult now r).1
      toHealthState m'.state :: publicStates rs m'

theorem applyResults_concat (rs : List (TimePoint × ProbeResult)) (now : TimePoint)
    (r : ProbeResult) (m : ServiceMonitor) :
    (applyResults (rs ++ [(now, r)]) m).1 = (applyResults rs m).1.note now r := by
  induction rs generalizing m with
  | nil => rfl
  | cons x rs ih => exact ih _

@[simp] theorem applyResults_cfg (rs : List (TimePoint × ProbeResult)) (m : ServiceMonitor) :
    (applyResults rs m).1.cfg = m.cfg := by
  induction rs generalizing m with
  | nil => rfl
  | cons x rs ih => exact (ih _).trans (applyResult_cfg x.1 x.2 m)

/-! ## The count -/

/-- The results at the end of a history that are failures, down to the last success. -/
def failuresInARow (rs : List (TimePoint × ProbeResult)) : Nat :=
  (rs.rtakeWhile fun x => !x.2.ok).length

theorem failuresInARow_ok (rs : List (TimePoint × ProbeResult)) (now : TimePoint)
    {r : ProbeResult} (h : r.ok = true) : failuresInARow (rs ++ [(now, r)]) = 0 := by
  rw [failuresInARow, List.rtakeWhile_concat_neg _ _ _ (by simp [h]), List.length_nil]

theorem failuresInARow_failed (rs : List (TimePoint × ProbeResult)) (now : TimePoint)
    {r : ProbeResult} (h : r.ok = false) :
    failuresInARow (rs ++ [(now, r)]) = failuresInARow rs + 1 := by
  rw [failuresInARow, List.rtakeWhile_concat_pos _ _ _ (by simp [h]), List.length_append,
    List.length_singleton, failuresInARow]

theorem note_ok (now : TimePoint) {r : ProbeResult} (m : ServiceMonitor) (h : r.ok = true) :
    (m.note now r).consecutiveFailures = 0 ∧ (m.note now r).state = .healthy := by
  simp [note, h]

theorem note_failed (now : TimePoint) {r : ProbeResult} (m : ServiceMonitor)
    (h : r.ok = false) :
    (m.note now r).consecutiveFailures = m.consecutiveFailures + 1 ∧
      (m.note now r).state =
        if m.cfg.degradedMaxFailures ≤ m.consecutiveFailures + 1 then .unhealthy
        else .degraded := by
  simp [note, h]

/-- The count is that of the failures in a row, as far as it goes. -/
theorem applyResults_consecutiveFailures (cfg : ServiceConfig)
    (rs : List (TimePoint × ProbeResult)) :
    (applyResults rs (ofConfig cfg)).1.consecutiveFailures =
      UInt32.ofNat (failuresInARow rs) := by
  induction rs using List.reverseRecOn with
  | nil => rfl
  | append_singleton rs x ih =>
      obtain ⟨now, r⟩ := x
      rw [applyResults_concat]
      by_cases hr : r.ok = true
      · rw [(note_ok now _ hr).1, failuresInARow_ok rs now hr]
        rfl
      · rw [Bool.not_eq_true] at hr
        rw [(note_failed now _ hr).1, failuresInARow_failed rs now hr, ih,
          UInt32.ofNat_add]
        rfl

theorem state_ok (cfg : ServiceConfig) (rs : List (TimePoint × ProbeResult)) (now : TimePoint)
    {r : ProbeResult} (h : r.ok = true) :
    (applyResults (rs ++ [(now, r)]) (ofConfig cfg)).1.state = .healthy := by
  rw [applyResults_concat]
  exact (note_ok now _ h).2

theorem state_failed (cfg : ServiceConfig) (rs : List (TimePoint × ProbeResult))
    (now : TimePoint) {r : ProbeResult} (h : r.ok = false) :
    (applyResults (rs ++ [(now, r)]) (ofConfig cfg)).1.state =
      if cfg.degradedMaxFailures.toNat ≤ failuresInARow (rs ++ [(now, r)]) % 2 ^ 32 then
        .unhealthy
      else .degraded := by
  have hcount := applyResults_consecutiveFailures cfg (rs ++ [(now, r)])
  rw [applyResults_concat] at hcount ⊢
  rw [(note_failed now _ h).1] at hcount
  rw [(note_failed now _ h).2, hcount, applyResults_cfg]
  simp only [UInt32.le_iff_toNat_le, UInt32.toNat_ofNat', ofConfig]

/-! ## The events -/

/-- What is published follows the public states, each as often as it changes. -/
theorem exists_published (rs : List (TimePoint × ProbeResult)) (m : ServiceMonitor) :
    ∃ published : List HealthChanged,
      (applyResults rs m).2 = published.map .healthChanged ∧
        (∀ c ∈ published, c.service = m.cfg.name) ∧
        toHealthState m.state :: published.map (·.state) =
          (toHealthState m.state :: publicStates rs m).destutter (· ≠ ·) := by
  induction rs generalizing m with
  | nil => exact ⟨[], rfl, List.forall_mem_nil _, rfl⟩
  | cons x rs ih =>
      obtain ⟨now, r⟩ := x
      obtain ⟨published, hevents, hservice, hstates⟩ := ih (m.applyResult now r).1
      rw [applyResult_cfg] at hservice
      simp only [applyResults, publicStates, hevents]
      rw [List.destutter_cons'] at hstates ⊢
      by_cases hsame : toHealthState m.state = toHealthState (m.applyResult now r).1.state
      · refine ⟨published, ?_, hservice, ?_⟩
        · have hnone : (m.applyResult now r).2 = [] := by
            simp only [applyResult] at hsame ⊢
            simp [publishIfChanged, hsame]
          rw [hnone, List.nil_append]
        · rw [List.destutter'_cons_neg _ (not_not.mpr hsame), hsame, hstates]
      · let change : HealthChanged :=
          { service := m.cfg.name, state := toHealthState (m.applyResult now r).1.state,
            detail := (m.applyResult now r).1.lastError }
        refine ⟨change :: published, ?_, fun c hc => ?_, ?_⟩
        · have hone : (m.applyResult now r).2 = [.healthChanged change] := by
            have hcfg := applyResult_cfg now r m
            simp only [applyResult] at hsame hcfg ⊢
            have hmoved : m.state ≠ (m.note now r).state := fun heq => hsame (by rw [heq])
            simp only [publishIfChanged, if_neg hmoved, if_neg hsame, hcfg, change, applyResult]
          rw [hone]
          rfl
        · rcases List.mem_cons.mp hc with rfl | hold
          · rfl
          · exact hservice c hold
        · rw [List.destutter'_cons_pos _ hsame, ← hstates]
          rfl

/-! ## The history as a whole -/

/-- What a history of results should lead to: after each result the state that the failures
in a row stand for, and an event for each change of the public state. -/
structure FollowsHistory (cfg : ServiceConfig) (rs : List (TimePoint × ProbeResult)) : Prop where
  states : ∀ ys now r, ys ++ [(now, r)] <+: rs →
    let state := (applyResults (ys ++ [(now, r)]) (ofConfig cfg)).1.state
    let failures := failuresInARow (ys ++ [(now, r)])
    (state = .healthy ↔ r.ok = true) ∧
      (r.ok = false →
        (state = .unhealthy ↔ cfg.degradedMaxFailures.toNat ≤ failures) ∧
          (state = .degraded ↔ failures < cfg.degradedMaxFailures.toNat))
  published : ∃ published : List HealthChanged,
    (applyResults rs (ofConfig cfg)).2 = published.map .healthChanged ∧
      (∀ c ∈ published, c.service = cfg.name) ∧
      .unknown :: published.map (·.state) =
        (HealthState.unknown :: publicStates rs (ofConfig cfg)).destutter (· ≠ ·)

/-- As long as the count has not come round, the state is what the history says. -/
theorem followsHistory_of_short {cfg : ServiceConfig} {rs : List (TimePoint × ProbeResult)}
    (hshort : ∀ ys, ys <+: rs → failuresInARow ys < 2 ^ 32) : FollowsHistory cfg rs where
  states := by
    intro ys now r hys
    have hlt := hshort _ hys
    cases hr : r.ok with
    | true => simp [state_ok cfg ys now hr]
    | false =>
        dsimp only
        rw [state_failed cfg ys now hr, Nat.mod_eq_of_lt hlt]
        by_cases hmax : cfg.degradedMaxFailures.toNat ≤ failuresInARow (ys ++ [(now, r)])
        · simp [hmax]
        · simp [hmax, Nat.lt_of_not_le hmax]
  published := by
    have hunknown : toHealthState (ofConfig cfg).state = .unknown := by
      unfold ofConfig
      dsimp only
      split <;> rfl
    have hall := exists_published rs (ofConfig cfg)
    rwa [hunknown] at hall

/-- After `2 ^ 32` failures in a row the count is zero, and the state one of a few failures. -/
theorem not_followsHistory_of_long {cfg : ServiceConfig}
    (hmax : 1 ≤ cfg.degradedMaxFailures) {rs ys : List (TimePoint × ProbeResult)}
    (hys : ys <+: rs) (hlong : 2 ^ 32 ≤ failuresInARow ys) : ¬ FollowsHistory cfg rs := by
  intro h
  obtain ⟨zs, hzs, hround⟩ := TrailingRun.exists_prefix_length_eq hlong
  change failuresInARow zs = 2 ^ 32 at hround
  cases zs using List.reverseRecOn with
  | nil => cases hround
  | append_singleton zs x =>
      obtain ⟨now, r⟩ := x
      have hr : r.ok = false := by
        by_contra hok
        rw [Bool.not_eq_false] at hok
        rw [failuresInARow_ok zs now hok] at hround
        cases hround
      have hstate := ((h.states zs now r (hzs.trans hys)).2 hr).1
      have hpos : 0 < cfg.degradedMaxFailures.toNat := UInt32.le_iff_toNat_le.mp hmax
      have hlt := cfg.degradedMaxFailures.toNat_lt
      rw [state_failed cfg zs now hr, hround, Nat.mod_self, if_neg (Nat.not_le.mpr hpos)] at hstate
      cases hstate.mpr (Nat.le_of_lt hlt)

/-- A monitor follows its history exactly if no `2 ^ 32` probes in a row fail. -/
theorem followsHistory_iff (cfg : ServiceConfig) (rs : List (TimePoint × ProbeResult))
    (hmax : 1 ≤ cfg.degradedMaxFailures) :
    FollowsHistory cfg rs ↔
      ¬ ∃ outage, outage <:+: rs ∧ outage.length = 2 ^ 32 ∧ ∀ x ∈ outage, x.2.ok = false := by
  have hruns : (∀ ys, ys <+: rs → failuresInARow ys < 2 ^ 32) ↔
      ¬ ∃ outage, outage <:+: rs ∧ outage.length = 2 ^ 32 ∧ ∀ x ∈ outage, (!x.2.ok) = true :=
    TrailingRun.forall_prefix_length_lt_iff
  simp only [Bool.not_eq_true'] at hruns
  rw [← hruns]
  constructor
  · intro h ys hys
    by_contra hlong
    exact not_followsHistory_of_long hmax hys (Nat.le_of_not_lt hlong) h
  · exact followsHistory_of_short

def llmService : ServiceConfig where
  name := ascii "llm"
  healthUrl := ascii "http://127.0.0.1:8081/health"

theorem followsHistory_iff_flapping :
    let flapping : List (TimePoint × ProbeResult) :=
      [(1, {}), (2, { ok := true }), (3, {}), (4, {}), (5, {}), (6, { ok := true })]
    FollowsHistory llmService flapping := by
  intro flapping
  refine (followsHistory_iff llmService flapping (by decide)).mpr ?_
  rintro ⟨outage, hin, hlen, -⟩
  have hle : outage.length ≤ 6 := hin.length_le
  omega

theorem failuresInARow_replicate (n : Nat) (now : TimePoint) {r : ProbeResult}
    (h : r.ok = false) : failuresInARow (List.replicate n (now, r)) = n := by
  induction n with
  | zero => rfl
  | succ n ih => rw [List.replicate_succ', failuresInARow_failed _ _ h, ih]

/-- A service that has not answered for `2 ^ 32` probes is taken for a degraded one. -/
theorem not_followsHistory_outage :
    ¬ FollowsHistory llmService (List.replicate (2 ^ 32) (0, {})) :=
  not_followsHistory_of_long (by decide) List.prefix_rfl
    (Nat.le_of_eq (failuresInARow_replicate (2 ^ 32) 0 rfl).symm)

end Acva.ServiceMonitor

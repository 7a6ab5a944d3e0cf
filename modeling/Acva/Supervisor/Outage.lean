import Mathlib.Data.Fintype.Basic
import Acva.Supervisor.Supervisor

/-! # Real outages

The grace clock of a service is a mark of when an evaluation first saw it unhealthy. A
mark may not be older than the outage it stands for: that takes that the evaluations
see each recovery, and that no service fails between a call's look at the clock and its
look at the service.
-/

namespace Acva

open Runs

/-- Since when each monitor's service has been unhealthy, if it is. -/
abbrev Outages := Nat → Option TimePoint

/-! ## What a round of the loop does -/

namespace Evaluation

variable {grace : Int} {snap : ServiceSnapshot} {marks : List UnhealthyAt} {e : Evaluation}

theorem sample_next : (e.sample grace snap marks).1.next = e.next + 1 := by
  unfold sample
  dsimp only
  split
  · rfl
  · split
    · rfl
    · split <;> rfl

theorem sample_now : (e.sample grace snap marks).1.now = e.now := by
  unfold sample
  dsimp only
  split
  · rfl
  · split
    · rfl
    · split <;> rfl

/-- A new mark is made for the service that was sampled, at the call's time. -/
theorem mem_sample_marks {k : UnhealthyAt} (h : k ∈ (e.sample grace snap marks).2) :
    k ∈ marks ∨ (k = { name := snap.name, since := e.now } ∧ snap.state = .unhealthy ∧
      snap.failPipelineIfDown = true) := by
  unfold sample at h
  dsimp only at h
  split at h
  · exact .inl h
  next hcritical =>
    split at h
    · exact .inl h
    · split at h
      next hunhealthy =>
        split at h
        · exact .inl h
        · rcases List.mem_append.mp h with hold | hnew
          · exact .inl hold
          · exact .inr ⟨List.mem_singleton.mp hnew, hunhealthy, by simpa using hcritical⟩
      · exact .inl (List.mem_of_mem_eraseP h)

/-- A call finds a service failed by the mark that it has, or by the one it gets. -/
theorem sample_anyFailed (h : (e.sample grace snap marks).1.anyFailed = true) :
    e.anyFailed = true ∨ (snap.state = .unhealthy ∧ snap.failPipelineIfDown = true ∧
      ∃ since, grace ≤ e.now - since ∧
        (since = e.now ∨ ∃ k ∈ marks, k.name = snap.name ∧ k.since = since)) := by
  unfold sample at h
  dsimp only at h
  split at h
  · exact .inl h
  next hcritical =>
    split at h
    · exact .inl h
    · split at h
      next hunhealthy =>
        rcases Bool.or_eq_true _ _ |>.mp h with hold | hnew
        · exact .inl hold
        · refine .inr ⟨hunhealthy, by simpa using hcritical, _,
            of_decide_eq_true hnew, ?_⟩
          cases hfound : marks.find? fun u => u.name = snap.name with
          | none => exact .inl rfl
          | some k =>
              have hname := List.find?_some hfound
              exact .inr ⟨k, List.mem_of_find?_eq_some hfound, by simpa using hname, rfl⟩
      · exact .inl h

end Evaluation

/-! ## Names -/

theorem mem_register_name {svc : ServiceConfig} {ms : List ServiceMonitor} {n : Bytes}
    (h : n ∈ (register svc ms).map ServiceMonitor.name) :
    n = svc.name ∨ n ∈ ms.map ServiceMonitor.name := by
  induction ms with
  | nil => exact .inl (by simpa [register, ServiceMonitor.name, ServiceMonitor.ofConfig] using h)
  | cons m rest ih =>
      unfold register at h
      split at h
      · rcases List.mem_cons.mp h with hfirst | hrest
        · exact .inl hfirst
        · exact .inr (List.mem_cons_of_mem _ hrest)
      · rcases List.mem_cons.mp h with hfirst | hrest
        · exact .inr (hfirst ▸ List.mem_cons_self)
        · exact (ih hrest).imp_right (List.mem_cons_of_mem _)

theorem register_nodup {svc : ServiceConfig} {ms : List ServiceMonitor}
    (h : (ms.map ServiceMonitor.name).Nodup) :
    ((register svc ms).map ServiceMonitor.name).Nodup := by
  induction ms with
  | nil => exact List.nodup_singleton _
  | cons m rest ih =>
      obtain ⟨hfirst, hrest⟩ := List.nodup_cons.mp h
      unfold register
      split
      next heq =>
        rw [heq] at hfirst
        exact List.nodup_cons.mpr ⟨hfirst, hrest⟩
      next hne =>
        refine List.nodup_cons.mpr ⟨fun hmem => ?_, ih hrest⟩
        exact (mem_register_name hmem).elim hne hfirst

theorem mem_register {svc : ServiceConfig} {ms : List ServiceMonitor} {m : ServiceMonitor}
    (h : m ∈ register svc ms) : m = .ofConfig svc ∨ m ∈ ms := by
  induction ms with
  | nil => exact .inl (List.mem_singleton.mp h)
  | cons x rest ih =>
      unfold register at h
      split at h
      · exact (List.mem_cons.mp h).imp_right (List.mem_cons_of_mem _)
      · rcases List.mem_cons.mp h with rfl | hrest
        · exact .inr List.mem_cons_self
        · exact (ih hrest).imp_right (List.mem_cons_of_mem _)

theorem ofConfig_state (svc : ServiceConfig) :
    (ServiceMonitor.ofConfig svc).state ≠ .unhealthy := by
  unfold ServiceMonitor.ofConfig
  dsimp only
  split <;> decide

namespace Supervisor

/-- As `start` finds it, the names are different and no service has been probed. -/
structure Fresh (s : Supervisor) : Prop where
  names : (s.monitors.map ServiceMonitor.name).Nodup
  states : ∀ m ∈ s.monitors, m.state ≠ .unhealthy
  unmarked : s.unhealthySince = []
  idle : s.waiting = [] ∧ s.evaluating = none

theorem registered_fresh (graceSeconds : Nat) (svcs : List ServiceConfig) :
    Fresh (registered graceSeconds svcs) := by
  have hfold : ∀ s : Supervisor, Fresh s →
      Fresh (svcs.foldl (fun s svc => s.registerService svc) s) := by
    induction svcs with
    | nil => exact fun _ h => h
    | cons svc svcs ih =>
        intro s h
        refine ih _ ⟨register_nodup h.names, fun m hm => ?_, h.unmarked, h.idle⟩
        rcases mem_register hm with rfl | hold
        · exact ofConfig_state svc
        · exact h.states m hold
  exact hfold _ ⟨List.nodup_nil, by simp, rfl, rfl, rfl⟩

/-! ## Outages -/

/-- Result by result, since when each service has been unhealthy. -/
def note (o : Outages) (s : Supervisor) : SupervisorAction → Outages
  | .apply i r =>
      match s.monitors[i]? with
      | none => o
      | some m =>
          Function.update o i <|
            if (m.applyResult s.clock r).1.state ≠ .unhealthy then none
            else if m.state = .unhealthy then o i
            else some s.clock
  | _ => o

/-- The `i`th monitor's service may fail the pipeline, and has been unhealthy since `u`. -/
structure Down (ms : List ServiceMonitor) (o : Outages) (i : Nat) (m : ServiceMonitor)
    (u : TimePoint) : Prop where
  monitor : ms[i]? = some m
  critical : m.cfg.failPipelineIfDown = true
  since : o i = some u

/-- A service that may fail the pipeline has been unhealthy for the grace window. -/
def RealOutage (s : Supervisor) (o : Outages) : Prop :=
  ∃ i m u, Down s.monitors o i m u ∧ m.state = .unhealthy ∧ u + s.grace ≤ s.clock

/-- A service that may fail the pipeline becomes unhealthy only where no mark of it is left
and no call that has read the clock is still to sample it; and it recovers only where no
call that has sampled it is still to store. -/
def SeenChange (s : Supervisor) : SupervisorAction → Prop
  | .apply i r => ∀ m ∈ s.monitors[i]?, m.cfg.failPipelineIfDown = true →
      (m.state ≠ .unhealthy → (m.applyResult s.clock r).1.state = .unhealthy →
        (∀ k ∈ s.unhealthySince, k.name ≠ m.name) ∧ s.waiting = [] ∧
          ∀ e ∈ s.evaluating, i < e.next) ∧
      (m.state = .unhealthy → (m.applyResult s.clock r).1.state ≠ .unhealthy →
        ∀ e ∈ s.evaluating, e.next ≤ i)
  | _ => True

instance (s : Supervisor) (a : SupervisorAction) : Decidable (s.SeenChange a) := by
  unfold SeenChange
  split <;> infer_instance

/-- Marks and calls are not older than the outages they will be held against. -/
structure OutageInv (s : Supervisor) (o : Outages) : Prop where
  names : (s.monitors.map ServiceMonitor.name).Nodup
  states : ∀ i m, s.monitors[i]? = some m → ((o i).isSome = true ↔ m.state = .unhealthy)
  begun : ∀ i u, o i = some u → u ≤ s.clock
  waiting : ∀ a ∈ s.waiting, a ≤ s.clock
  evaluating : ∀ e ∈ s.evaluating, e.now ≤ s.clock
  marked : ∀ i m u, Down s.monitors o i m u → ∀ k ∈ s.unhealthySince, k.name = m.name → u ≤ k.since
  called : ∀ i m u, Down s.monitors o i m u → ∀ a ∈ s.waiting, u ≤ a
  sampled : ∀ i m u, Down s.monitors o i m u → ∀ e ∈ s.evaluating, e.next ≤ i → u ≤ e.now
  failed : ∀ e ∈ s.evaluating, e.anyFailed = true →
    ∃ i m u, Down s.monitors o i m u ∧ i < e.next ∧ u + s.grace ≤ e.now

theorem later (now : Int) (elapsed : Nat) : now ≤ now + elapsed :=
  Int.le_add_of_nonneg_right (Int.natCast_nonneg elapsed)

/-- A window that has passed since a mark has passed since what came before the mark. -/
theorem window_le {u since now window : Int} (hu : u ≤ since) (h : window ≤ now - since) :
    u + window ≤ now := by
  omega

/-! ## One step -/

/-- What each action does. -/
inductive SupervisorStep (s : Supervisor) : SupervisorAction → Supervisor → Prop
  | tick (elapsed : Nat) : SupervisorStep s (.tick elapsed) { s with clock := s.clock + elapsed }
  | apply (i : Nat) (r : ProbeResult) (m : ServiceMonitor) (hm : s.monitors[i]? = some m) :
      SupervisorStep s (.apply i r) { s with
        monitors := s.monitors.set i (m.applyResult s.clock r).1
        published := s.published ++ (m.applyResult s.clock r).2 }
  | evaluate : SupervisorStep s .evaluate { s with waiting := s.waiting ++ [s.clock] }
  | lock (i : Nat) (now : TimePoint) (hidle : s.evaluating = none)
      (hnow : s.waiting[i]? = some now) :
      SupervisorStep s (.lock i)
        { s with waiting := s.waiting.eraseIdx i, evaluating := some { now := now } }
  | sample (e : Evaluation) (m : ServiceMonitor) (he : s.evaluating = some e)
      (hm : s.monitors[e.next]? = some m) :
      SupervisorStep s .sample { s with
        evaluating := some (e.sample s.grace m.snapshot s.unhealthySince).1
        unhealthySince := (e.sample s.grace m.snapshot s.unhealthySince).2 }
  | store (e : Evaluation) (he : s.evaluating = some e) :
      SupervisorStep s .store (s.storeVerdict e.verdict)

theorem step_eq_some {s s' : Supervisor} {a : SupervisorAction} (h : s.step a = some s') :
    SupervisorStep s a s' := by
  cases a with
  | tick elapsed =>
      cases h
      exact .tick elapsed
  | apply i r =>
      obtain ⟨m, hm, hrest⟩ := Option.bind_eq_some_iff.mp h
      split at hrest
      · cases hrest
      · cases hrest
        exact .apply i r m hm
  | evaluate =>
      cases h
      exact .evaluate
  | lock i =>
      simp only [step] at h
      split at h
      · cases h
      next hidle =>
        obtain ⟨now, hnow, rfl⟩ := Option.map_eq_some_iff.mp h
        exact .lock i now (by simpa using hidle) hnow
  | sample =>
      obtain ⟨e, he, hrest⟩ := Option.bind_eq_some_iff.mp h
      obtain ⟨m, hm, rfl⟩ := Option.map_eq_some_iff.mp hrest
      exact .sample e m he hm
  | store =>
      obtain ⟨e, he, hrest⟩ := Option.bind_eq_some_iff.mp h
      split at hrest
      · cases hrest
      · cases hrest
        exact .store e he

section Apply

variable {s s' : Supervisor} {o : Outages} {i j : Nat} {r : ProbeResult} {m x : ServiceMonitor}
  {u : TimePoint}

/-- The state after the `i`th monitor, `m`, has applied a result. -/
def applied (s : Supervisor) (i : Nat) (r : ProbeResult) (m : ServiceMonitor) : Supervisor :=
  { s with
    monitors := s.monitors.set i (m.applyResult s.clock r).1
    published := s.published ++ (m.applyResult s.clock r).2 }

theorem note_apply (hm : s.monitors[i]? = some m) (j : Nat) :
    note o s (.apply i r) j =
      if j = i then
        if (m.applyResult s.clock r).1.state ≠ .unhealthy then none
        else if m.state = .unhealthy then o i
        else some s.clock
      else o j := by
  simp only [note, hm, Function.update_apply]

theorem applied_monitor (hm : s.monitors[i]? = some m) :
    (applied s i r m).monitors[j]? =
      if j = i then some (m.applyResult s.clock r).1 else s.monitors[j]? := by
  have hlt : i < s.monitors.length := (List.getElem?_eq_some_iff.mp hm).1
  show (s.monitors.set i _)[j]? = _
  rw [List.getElem?_set]
  by_cases hj : i = j
  · simp [hj ▸ hlt, hj]
  · simp [hj, Ne.symm hj]

/-- An outage after a result is an outage from before, or it begins where everybody can
see it. -/
theorem down_of_applied (hm : s.monitors[i]? = some m)
    (hseen : s.SeenChange (.apply i r))
    (hdown : Down (applied s i r m).monitors (note o s (.apply i r)) j x u) :
    (∃ y, Down s.monitors o j y u ∧ y.name = x.name) ∨
      (u = s.clock ∧ (∀ k ∈ s.unhealthySince, k.name ≠ x.name) ∧ s.waiting = [] ∧
        ∀ e ∈ s.evaluating, j < e.next) := by
  obtain ⟨hx, hcritical, hsince⟩ := hdown
  rw [applied_monitor hm] at hx
  rw [note_apply hm] at hsince
  by_cases hj : j = i
  · subst hj
    rw [if_pos rfl] at hx hsince
    cases hx
    rw [ServiceMonitor.applyResult_cfg] at hcritical
    have hname : m.name = (m.applyResult s.clock r).1.name := by
      rw [ServiceMonitor.name, ServiceMonitor.name, ServiceMonitor.applyResult_cfg]
    split at hsince
    · cases hsince
    next hafter =>
      split at hsince
      · exact .inl ⟨m, ⟨hm, hcritical, hsince⟩, hname⟩
      next hbefore =>
        cases hsince
        right
        rw [← hname]
        exact ⟨rfl, (hseen m hm hcritical).1 hbefore (not_not.mp hafter)⟩
  · rw [if_neg hj] at hx hsince
    exact .inl ⟨x, ⟨hx, hcritical, hsince⟩, rfl⟩

/-- A service that the call under way has sampled does not recover. -/
theorem down_applied (hi : OutageInv s o) (hm : s.monitors[i]? = some m)
    (hseen : s.SeenChange (.apply i r)) {e : Evaluation} (he : e ∈ s.evaluating)
    (hsampled : j < e.next) (hdown : Down s.monitors o j x u) :
    ∃ y, Down (applied s i r m).monitors (note o s (.apply i r)) j y u := by
  obtain ⟨hx, hcritical, hsince⟩ := hdown
  by_cases hj : j = i
  · subst hj
    cases hm.symm.trans hx
    have hunhealthy : m.state = .unhealthy := (hi.states j m hm).mp (by rw [hsince]; rfl)
    have hstays : (m.applyResult s.clock r).1.state = .unhealthy := by
      by_contra hrecovers
      have hle := (hseen m hm hcritical).2 hunhealthy hrecovers e he
      omega
    refine ⟨(m.applyResult s.clock r).1, ?_, ?_, ?_⟩
    · rw [applied_monitor hm, if_pos rfl]
    · rw [ServiceMonitor.applyResult_cfg, hcritical]
    · rw [note_apply hm, if_pos rfl, if_neg (not_not.mpr hstays), if_pos hunhealthy, hsince]
  · refine ⟨x, ?_, hcritical, ?_⟩
    · rw [applied_monitor hm, if_neg hj, hx]
    · rw [note_apply hm, if_neg hj, hsince]

theorem OutageInv.apply (hi : OutageInv s o) (hm : s.monitors[i]? = some m)
    (hseen : s.SeenChange (.apply i r)) :
    OutageInv (applied s i r m) (note o s (.apply i r)) := by
  constructor
  case names =>
    show ((s.monitors.set i (m.applyResult s.clock r).1).map ServiceMonitor.name).Nodup
    have hname : (m.applyResult s.clock r).1.name = m.name := by
      rw [ServiceMonitor.name, ServiceMonitor.name, ServiceMonitor.applyResult_cfg]
    obtain ⟨hlt, hat⟩ := List.getElem?_eq_some_iff.mp hm
    have hsame : (s.monitors.map ServiceMonitor.name).set i m.name =
        s.monitors.map ServiceMonitor.name := by
      rw [← hat, ← List.map_set, List.set_getElem_self]
    rw [List.map_set, hname, hsame]
    exact hi.names
  case states =>
    intro j x hx
    rw [applied_monitor hm] at hx
    rw [note_apply hm]
    by_cases hj : j = i
    · subst hj
      rw [if_pos rfl] at hx ⊢
      cases hx
      by_cases hafter : (m.applyResult s.clock r).1.state = .unhealthy
      · by_cases hbefore : m.state = .unhealthy
        · simp [hafter, hbefore, (hi.states j m hm).mpr hbefore]
        · simp [hafter, hbefore]
      · simp [hafter]
    · rw [if_neg hj] at hx ⊢
      exact hi.states j x hx
  case begun =>
    intro j u hu
    rw [note_apply hm] at hu
    split at hu
    · split at hu
      · cases hu
      · split at hu
        next hj _ _ => exact hi.begun i u hu
        · cases hu
          exact Int.le_refl _
    · exact hi.begun j u hu
  case waiting => exact hi.waiting
  case evaluating => exact hi.evaluating
  case marked =>
    intro j x u hdown k hk hname
    rcases down_of_applied hm hseen hdown with ⟨y, hy, hsame⟩ | ⟨-, hunmarked, -⟩
    · exact hi.marked j y u hy k hk (hname.trans hsame.symm)
    · exact absurd hname (hunmarked k hk)
  case called =>
    intro j x u hdown a ha
    rcases down_of_applied hm hseen hdown with ⟨y, hy, -⟩ | ⟨-, -, hnone, -⟩
    · exact hi.called j y u hy a ha
    · have hmem : a ∈ s.waiting := ha
      rw [hnone] at hmem
      cases hmem
  case sampled =>
    intro j x u hdown e he hle
    rcases down_of_applied hm hseen hdown with ⟨y, hy, -⟩ | ⟨-, -, -, hpast⟩
    · exact hi.sampled j y u hy e he hle
    · have hlt := hpast e he
      omega
  case failed =>
    intro e he hfailed
    obtain ⟨j, x, u, hdown, hlt, hgrace⟩ := hi.failed e he hfailed
    obtain ⟨y, hy⟩ := down_applied hi hm hseen he hlt hdown
    exact ⟨j, y, u, hy, hlt, hgrace⟩

end Apply

/-- A round of the loop makes marks that are young enough, and fails the pipeline for an outage
that is old enough. -/
theorem OutageInv.sample {s : Supervisor} {o : Outages} {e : Evaluation} {m : ServiceMonitor}
    (hi : OutageInv s o) (he : s.evaluating = some e) (hm : s.monitors[e.next]? = some m) :
    OutageInv { s with
      evaluating := some (e.sample s.grace m.snapshot s.unhealthySince).1
      unhealthySince := (e.sample s.grace m.snapshot s.unhealthySince).2 } o := by
  have hmem : e ∈ s.evaluating := he
  have hother : ∀ {i x u}, Down s.monitors o i x u → x.name = m.name → i = e.next := by
    intro i x u hdown hname
    have hlt := (List.getElem?_eq_some_iff.mp hdown.monitor).1
    have hat : (s.monitors.map ServiceMonitor.name)[i]? =
        (s.monitors.map ServiceMonitor.name)[e.next]? := by
      rw [List.getElem?_map, List.getElem?_map, hdown.monitor, hm, Option.map_some, hname,
        Option.map_some]
    exact (List.getElem?_inj (by rwa [List.length_map]) hi.names).mp hat
  refine ⟨hi.names, hi.states, hi.begun, hi.waiting, ?_, ?_, hi.called, ?_, ?_⟩
  · rintro _ ⟨⟩
    rw [Evaluation.sample_now]
    exact hi.evaluating e hmem
  · intro i x u hdown k hk hname
    rcases Evaluation.mem_sample_marks hk with hold | ⟨rfl, -, -⟩
    · exact hi.marked i x u hdown k hold hname
    · exact hi.sampled i x u hdown e hmem (Nat.le_of_eq (hother hdown hname.symm).symm)
  · rintro i x u hdown _ ⟨⟩ hle
    rw [Evaluation.sample_next] at hle
    rw [Evaluation.sample_now]
    exact hi.sampled i x u hdown e hmem (by omega)
  · rintro _ ⟨⟩ hfailed
    rw [Evaluation.sample_next, Evaluation.sample_now]
    rcases Evaluation.sample_anyFailed hfailed with hold | ⟨hstate, hcritical, since, hsince, hfrom⟩
    · obtain ⟨i, x, u, hdown, hlt, hgrace⟩ := hi.failed e hmem hold
      exact ⟨i, x, u, hdown, by omega, hgrace⟩
    · obtain ⟨u, hu⟩ := Option.isSome_iff_exists.mp ((hi.states e.next m hm).mpr hstate)
      have hdown : Down s.monitors o e.next m u := ⟨hm, hcritical, hu⟩
      have hbegun : u ≤ since := by
        rcases hfrom with rfl | ⟨k, hk, hname, rfl⟩
        · exact hi.sampled e.next m u hdown e hmem (Nat.le_refl _)
        · exact hi.marked e.next m u hdown k hk hname
      exact ⟨e.next, m, u, hdown, Nat.lt_succ_self _, window_le hbegun hsince⟩

theorem OutageInv.step {s s' : Supervisor} {o : Outages} {a : SupervisorAction}
    (hi : OutageInv s o) (hseen : s.SeenChange a) (hstep : s.step a = some s') :
    OutageInv s' (note o s a) := by
  cases step_eq_some hstep with
  | tick elapsed =>
      refine ⟨hi.names, hi.states, fun i u hu => ?_, fun a ha => ?_, fun e he => ?_, hi.marked,
        hi.called, hi.sampled, hi.failed⟩
      · exact Int.le_trans (hi.begun i u hu) (later _ elapsed)
      · exact Int.le_trans (hi.waiting a ha) (later _ elapsed)
      · exact Int.le_trans (hi.evaluating e he) (later _ elapsed)
  | apply i r m hm => exact hi.apply hm hseen
  | evaluate =>
      refine ⟨hi.names, hi.states, hi.begun, fun a ha => ?_, hi.evaluating, hi.marked,
        fun i m u hdown a ha => ?_, hi.sampled, hi.failed⟩
      · rcases List.mem_append.mp ha with hold | hnew
        · exact hi.waiting a hold
        · exact Int.le_of_eq (List.mem_singleton.mp hnew)
      · rcases List.mem_append.mp ha with hold | hnew
        · exact hi.called i m u hdown a hold
        · exact List.mem_singleton.mp hnew ▸ hi.begun i u hdown.since
  | lock i now hidle hnow =>
      have hwas : now ∈ s.waiting := List.mem_of_getElem? hnow
      refine ⟨hi.names, hi.states, hi.begun, fun a ha => hi.waiting a (List.mem_of_mem_eraseIdx ha),
        ?_, hi.marked, fun i m u hdown a ha => ?_, ?_, ?_⟩
      · rintro _ ⟨⟩
        exact hi.waiting now hwas
      · exact hi.called i m u hdown a (List.mem_of_mem_eraseIdx ha)
      · rintro i m u hdown _ ⟨⟩ -
        exact hi.called i m u hdown now hwas
      · rintro _ ⟨⟩ hfailed
        cases hfailed
  | sample e m he hm => exact hi.sample he hm
  | store e he =>
      refine ⟨hi.names, hi.states, hi.begun, hi.waiting, ?_, hi.marked, hi.called, ?_, ?_⟩
      · rintro _ ⟨⟩
      · rintro _ _ _ _ _ ⟨⟩
      · rintro _ ⟨⟩

/-! ## Runs -/

theorem OutageInv.start (graceSeconds : Nat) (svcs : List ServiceConfig) :
    OutageInv (registered graceSeconds svcs) fun _ => none := by
  have hfresh := registered_fresh graceSeconds svcs
  obtain ⟨hwaiting, hidle⟩ := hfresh.idle
  refine ⟨hfresh.names, fun i m hm => ?_, ?_, ?_, ?_, ?_, ?_, ?_, ?_⟩
  · have hmem := hfresh.states m (List.mem_of_getElem? hm)
    simp [hmem]
  · rintro _ _ ⟨⟩
  · simp [hwaiting]
  · simp [hidle]
  · rintro _ _ _ ⟨_, _, ⟨⟩⟩
  · rintro _ _ _ ⟨_, _, ⟨⟩⟩
  · rintro _ _ _ ⟨_, _, ⟨⟩⟩
  · simp [hidle]

theorem verdict_failed {e : Evaluation} (h : e.verdict = .failed) : e.anyFailed = true := by
  unfold Evaluation.verdict at h
  split at h
  · cases h
  · split at h
    next hfailed => exact hfailed
    · cases h

/-- Where the changes have all been seen, the pipeline becomes Failed for a real outage only. -/
theorem run_realOutage {graceSeconds : Nat} {svcs : List ServiceConfig}
    {acts : List SupervisorAction} {a : SupervisorAction} {w w' : Supervisor × Outages}
    (hrun : run (watch step note) (registered graceSeconds svcs, fun _ => none) acts = some w)
    (hseen : Always (watch step note) (fun w a => w.1.SeenChange a)
      (registered graceSeconds svcs, fun _ => none) acts)
    (hstep : watch step note w a = some w') (hbefore : w.1.pipelineState ≠ .failed)
    (hafter : w'.1.pipelineState = .failed) : RealOutage w'.1 w'.2 := by
  have hkeeps : ∀ (w : Supervisor × Outages) (a : SupervisorAction) (w' : Supervisor × Outages),
      OutageInv w.1 w.2 → w.1.SeenChange a → watch step note w a = some w' →
        OutageInv w'.1 w'.2 := by
    intro w a w' hw hok hs
    obtain ⟨hone, hnote⟩ := watch_eq_some.mp hs
    rw [hnote]
    exact hw.step hok hone
  have hi : OutageInv w.1 w.2 :=
    run_invariant hkeeps hrun hseen (OutageInv.start graceSeconds svcs)
  obtain ⟨hone, hnote⟩ := watch_eq_some.mp hstep
  rw [hnote]
  obtain ⟨s', o'⟩ := w'
  cases step_eq_some hone with
  | store e he =>
      obtain ⟨i, m, u, hdown, -, hgrace⟩ := hi.failed e he (verdict_failed hafter)
      have hstate := (hi.states i m hdown.monitor).mp (by rw [hdown.since]; rfl)
      exact ⟨i, m, u, hdown, hstate, Int.le_trans hgrace (hi.evaluating e he)⟩
  | tick elapsed => exact absurd hafter hbefore
  | apply i r m hm => exact absurd hafter hbefore
  | evaluate => exact absurd hafter hbefore
  | lock i now _ _ => exact absurd hafter hbefore
  | sample e m _ _ => exact absurd hafter hbefore

/-- One service that fails the pipeline, and is unhealthy after one failure. -/
def oneService : List ServiceConfig :=
  [{ name := ascii "llm", healthUrl := ascii "http://llm/health", degradedMaxFailures := 1 }]

/-- One call of `evaluate_pipeline` up to its verdict. -/
def evaluation : List SupervisorAction := [.evaluate, .lock 0, .sample]

/-- The service fails, and an evaluation looks on; so does another one 30 seconds later. -/
def outage : List SupervisorAction :=
  [.apply 0 {}] ++ evaluation ++ [.store, .tick 30000000000] ++ evaluation

theorem run_realOutage_outage :
    ∃ w w', run (watch step note) (registered 30 oneService, fun _ => none) outage = some w ∧
      watch step note w .store = some w' ∧ w'.1.pipelineState = .failed ∧
      RealOutage w'.1 w'.2 := by
  obtain ⟨w, w', hw, hstep, hbefore, hafter⟩ : ∃ w w',
      run (watch step note) (registered 30 oneService, fun _ => none) outage = some w ∧
      watch step note w .store = some w' ∧ w.1.pipelineState ≠ .failed ∧
      w'.1.pipelineState = .failed := ⟨_, _, rfl, rfl, by decide, rfl⟩
  have hseen : Always (watch step note) (fun w a => w.1.SeenChange a)
      (registered 30 oneService, fun _ => none) outage := by decide +kernel
  exact ⟨w, w', hw, hstep, hafter, run_realOutage hw hseen hstep hbefore hafter⟩

/-- The service recovers after ten seconds, and fails again before an evaluation looks. -/
def relapse : List SupervisorAction :=
  [.apply 0 {}] ++ evaluation ++
    [.store, .tick 10000000000, .apply 0 { ok := true }, .apply 0 {}, .tick 20000000000] ++
    evaluation

/-- The pipeline fails for an outage of 20 seconds, by the mark of the one before. -/
theorem relapse_fails_early :
    ∃ w w', run (watch step note) (registered 30 oneService, fun _ => none) relapse = some w ∧
      watch step note w .store = some w' ∧ w.1.pipelineState ≠ .failed ∧
      w'.1.pipelineState = .failed ∧ ¬ RealOutage w'.1 w'.2 := by
  refine ⟨_, _, rfl, rfl, by decide, rfl, ?_⟩
  rintro ⟨i, m, u, hdown, -, hle⟩
  cases i with
  | succ i => cases hdown.monitor
  | zero =>
      cases hdown.since
      revert hle
      decide

end Supervisor

end Acva

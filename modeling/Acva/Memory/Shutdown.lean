import Acva.Event.QueueWorker
import Acva.Memory.MemoryThread

/-! # Stopping the memory thread

The destructor clears the running flag before it closes the queue, and the worker
does not look at the queue again once the flag is cleared. A poster reads the flag
before it pushes, so that a job can still be accepted when the worker has gone.
-/

namespace Acva.Memory

open Acva.Bus Acva.Runs

/-- The memory thread with the threads that are inside `post()` and have found it running. -/
structure MemoryHost (ι : Type) where
  thread : QueueWorker ι
  posting : Nat → Option ι := fun _ => none

inductive HostAction (ι : Type)
  /-- Thread `p` calls `post` and reads the flag. -/
  | post (p : Nat) (job : ι)
  /-- Thread `p` pushes. -/
  | push (p : Nat)
  /-- The worker moves, or the destructor does. -/
  | thread (a : WorkAction ι)
deriving DecidableEq, Repr

namespace MemoryHost

variable {ι : Type}

/-- Right after `open()`. -/
def start (capacity : Nat) : MemoryHost ι := { thread := .start capacity .dropNewest }

/-- Rejected at once when the thread is shutting down. -/
def post (p : Nat) (job : ι) (h : MemoryHost ι) : Option (MemoryHost ι) :=
  match h.posting p with
  | some _ => none
  | none =>
      if h.thread.running = true then
        some { h with posting := Function.update h.posting p (some job) }
      else some h

def push (p : Nat) (h : MemoryHost ι) : Option (MemoryHost ι) :=
  match h.posting p with
  | some job =>
      (h.thread.step (.push job)).map fun thread =>
        { h with thread := thread, posting := Function.update h.posting p none }
  | none => none

def step (h : MemoryHost ι) : HostAction ι → Option (MemoryHost ι)
  | .post p job => h.post p job
  | .push p => h.push p
  | .thread (.push _) => none
  | .thread a => (h.thread.step a).map fun thread => { h with thread := thread }

/-- What the worker and its queue see of a step. -/
def workActions (h : MemoryHost ι) : HostAction ι → List (WorkAction ι)
  | .post _ _ => []
  | .push p => ((h.posting p).map WorkAction.push).toList
  | .thread a => [a]

/-- The trace of the queue: `accepted` are the jobs that `post` returned true for, and
`popped` those that were executed. -/
def note (t : QueueTrace ι) (h : MemoryHost ι) (a : HostAction ι) : QueueTrace ι :=
  (h.workActions a).foldl (fun t a => QueueWorker.note t h.thread a) t

/-- The worker does not leave its loop with jobs queued, and no job is accepted after it. -/
def NothingLeft (h : MemoryHost ι) (a : HostAction ι) : Prop :=
  ∀ b ∈ h.workActions a, h.thread.NothingLeft b

instance (h : MemoryHost ι) (a : HostAction ι) : Decidable (h.NothingLeft a) :=
  inferInstanceAs (Decidable (∀ b ∈ h.workActions a, h.thread.NothingLeft b))

variable {h h' : MemoryHost ι} {t : QueueTrace ι}

theorem step_eq_some {a : HostAction ι} (hs : h.step a = some h') :
    (h.workActions a = [] ∧ h'.thread = h.thread) ∨
      ∃ b, h.workActions a = [b] ∧ h.thread.step b = some h'.thread := by
  cases a with
  | post p job =>
      left
      simp only [step, post] at hs
      split at hs
      · cases hs
      · split at hs
        · cases hs
          exact ⟨rfl, rfl⟩
        · cases hs
          exact ⟨rfl, rfl⟩
  | push p =>
      right
      simp only [step, push] at hs
      split at hs
      next job hposting =>
        obtain ⟨thread, hthread, rfl⟩ := Option.map_eq_some_iff.mp hs
        exact ⟨.push job, by simp [workActions, hposting], hthread⟩
      next => cases hs
  | thread a =>
      right
      refine ⟨a, rfl, ?_⟩
      cases a with
      | push x => cases hs
      | _ =>
          obtain ⟨thread, hthread, rfl⟩ := Option.map_eq_some_iff.mp hs
          exact hthread

theorem projects_thread :
    Projects (step : MemoryHost ι → HostAction ι → _) QueueWorker.step thread workActions := by
  intro h a h' hs
  rcases step_eq_some hs with ⟨hnone, hsame⟩ | ⟨b, hone, hmoves⟩
  · rw [hnone, hsame]
    rfl
  · rw [hone]
    exact run_cons_eq_some.mpr ⟨_, hmoves, rfl⟩

theorem projects_traced : Projects (watch (step : MemoryHost ι → HostAction ι → _) note)
    (watch QueueWorker.step QueueWorker.note) (fun p => (p.1.thread, p.2))
    (fun p a => p.1.workActions a) := by
  rintro ⟨h, t⟩ a ⟨h', t'⟩ hs
  obtain ⟨hstep, hnote⟩ := watch_eq_some.mp hs
  simp only at hstep hnote
  subst hnote
  rcases step_eq_some hstep with ⟨hnone, hsame⟩ | ⟨b, hone, hmoves⟩
  · simp [note, hnone, hsame]
  · simp only [note, hone, List.foldl_cons, List.foldl_nil]
    exact run_cons_eq_some.mpr ⟨_, watch_eq_some.mpr ⟨hmoves, rfl⟩, rfl⟩

theorem nothingLeft_iff (h : MemoryHost ι) (a : HostAction ι) :
    Always QueueWorker.step QueueWorker.NothingLeft h.thread (h.workActions a) ↔
      h.NothingLeft a := by
  cases a with
  | post p job => simp [NothingLeft, workActions]
  | push p =>
      cases hposting : h.posting p with
      | none => simp [NothingLeft, workActions, hposting]
      | some job => simp [NothingLeft, workActions, hposting, Always]
  | thread a => simp [NothingLeft, workActions, Always]

/-! ## The memory thread without interruption -/

/-- The worker at the head of its loop. -/
def atLoop {ω : Type} (m : MemoryThread ι ω) : QueueWorker ι :=
  { queue := m.queue, running := m.running }

/-- A round of the worker is three of its steps. -/
theorem work_run {ω : Type} {exec : ω → ι → Repository → Repository} {outcome : ω} {job : ι}
    {m m' : MemoryThread ι ω} (hwork : m.work exec outcome = some (job, m')) :
    run QueueWorker.step (atLoop m) [.testRunning, .pop, .handlerReturns] = some (atLoop m') := by
  unfold MemoryThread.work at hwork
  split at hwork
  · cases hwork
  next hrunning =>
    split at hwork
    next job' queue hpop =>
      cases hwork
      simp [atLoop, QueueWorker.step, hpop, hrunning]
    next => cases hwork

/-- A job is posted by one push where the thread is running, and not at all otherwise. -/
theorem post_run {ω : Type} {m : MemoryThread ι ω} (hpolicy : m.queue.policy = .dropNewest)
    (job : ι) : run QueueWorker.step (atLoop m) (if m.running = true then [.push job] else []) =
      some (atLoop (m.post job).2) := by
  unfold MemoryThread.post
  by_cases hrunning : m.running = true
  · have hgoes : m.queue.push job ≠ none := fun hwaits => by
      obtain ⟨-, -, hblock⟩ := BoundedQueue.push_eq_none_iff.mp hwaits
      rw [hpolicy] at hblock
      cases hblock
    cases hpush : m.queue.push job with
    | none => exact absurd hpush hgoes
    | some r => simp [atLoop, QueueWorker.step, hpush, hrunning]
  · simp [hrunning]

/-- Clearing the flag and closing the queue. -/
theorem shutDown_run {ω : Type} (m : MemoryThread ι ω) :
    run QueueWorker.step (atLoop m) [.clearRunning, .close] =
      some { atLoop m.shutDown with stopper := .closed } := rfl

/-! ## Runs -/

/-- When the destructor has returned, the jobs that `post` returned true for were executed,
each once and in order, exactly if the worker did not leave its loop with jobs queued or
still to be accepted. -/
theorem destroy_executes_iff {capacity : Nat} {acts : List (HostAction ι)}
    (hrun : run (watch step note) (start capacity, {}) acts = some (h, t))
    (hreturned : h.thread.stopper = .returned) :
    t.popped = t.accepted ↔ Always step NothingLeft (start capacity) acts := by
  have hthread := projects_traced.run hrun
  have hnone : t.evicted = [] :=
    BoundedQueue.run_evicted (by simp [start, QueueWorker.start, BoundedQueue.fresh])
      (QueueWorker.projects_queue.run hthread)
  obtain ⟨l, hl⟩ := QueueWorker.run_ledgered hthread
  have hjobs := hl.popped_append hnone
  have hserved : t.popped = t.accepted ↔ t.AllServed := by
    rw [hl.allServed_iff, ← hjobs, List.self_eq_append_right]
  rw [hserved, QueueWorker.allServed_iff hthread hreturned, labels_watch]
  have hpermits : (fun (h : MemoryHost ι) (a : HostAction ι) =>
      Always QueueWorker.step QueueWorker.NothingLeft h.thread (h.workActions a)) = NothingLeft :=
    funext fun h => funext fun a => propext (nothingLeft_iff h a)
  rw [← hpermits]
  exact projects_thread.always_iff (run_of_watch hrun)

/-- The worker is idle when the destructor runs. -/
def destroyWhileIdle : List (HostAction Nat) :=
  [.post 0 1, .push 0, .thread .testRunning, .thread .pop, .thread .handlerReturns,
    .thread .testRunning, .thread .clearRunning, .post 0 2, .thread .close, .thread .pop,
    .thread .join]

/-- The second job is queued while the worker runs the first. -/
def destroyWhileBusy : List (HostAction Nat) :=
  [.post 0 1, .push 0, .thread .testRunning, .thread .pop, .post 0 2, .push 0,
    .thread .clearRunning, .thread .close, .thread .handlerReturns, .thread .testRunning,
    .thread .join]

theorem destroy_executes_iff_whileIdle :
    ∃ h t, run (watch step note) (start 8, {}) destroyWhileIdle = some (h, t) ∧
      t.accepted = [1] ∧ t.popped = t.accepted := by
  obtain ⟨h, t, hrun, haccepted, hreturned⟩ : ∃ h t,
      run (watch step note) (start 8, {}) destroyWhileIdle = some (h, t) ∧
        t.accepted = [1] ∧ h.thread.stopper = .returned := ⟨_, _, rfl, rfl, rfl⟩
  exact ⟨h, t, hrun, haccepted, (destroy_executes_iff hrun hreturned).mpr (by decide)⟩

/-- The second job was accepted and is never executed. -/
theorem destroyWhileBusy_loses :
    ∃ h t, run (watch step note) (start 8, {}) destroyWhileBusy = some (h, t) ∧
      h.thread.stopper = .returned ∧ t.accepted = [1, 2] ∧ t.popped = [1] ∧
        ¬ t.popped = t.accepted :=
  ⟨_, _, rfl, rfl, rfl, rfl, by decide⟩

end MemoryHost

end Acva.Memory

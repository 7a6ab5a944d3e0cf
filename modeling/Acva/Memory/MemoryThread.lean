import Acva.Event.BoundedQueue
import Acva.Memory.Repository

/-! # The memory thread

Other threads post jobs into a bounded queue that drops what it cannot hold; one
worker runs them one after the other. `ι` is what a job is, `ω` how its
statements may end, and `exec` what it does to the repository.
-/

namespace Acva.Memory

open Acva.Bus

structure MemoryThread (ι ω : Type) where
  repo : Repository := {}
  queue : BoundedQueue ι
  running : Bool := true
  executed : List (ι × ω) := []

namespace MemoryThread

variable {ι ω : Type}

/-- Rejected when the thread is shutting down or the queue has no room. -/
def post (job : ι) (m : MemoryThread ι ω) : Bool × MemoryThread ι ω :=
  if m.running = false then (false, m)
  else
    match m.queue.push job with
    | some (ok, queue) => (ok, { m with queue := queue })
    -- the queue never waits
    | none => (false, m)

/-- One round of the worker, and the job it has run. -/
def work (exec : ω → ι → Repository → Repository) (outcome : ω) (m : MemoryThread ι ω) :
    Option (ι × MemoryThread ι ω) :=
  if m.running = false then none
  else
    match m.queue.pop with
    | some (some job, queue) =>
        some (job, { m with
          repo := exec outcome job m.repo
          queue := queue
          executed := m.executed ++ [(job, outcome)] })
    | _ => none

/-- The first half of the destructor. -/
def shutDown (m : MemoryThread ι ω) : MemoryThread ι ω :=
  { m with running := false, queue := m.queue.close }

/-- The jobs run so far and the jobs to run, in order. -/
def jobs (m : MemoryThread ι ω) : List ι := m.executed.map (·.1) ++ m.queue.items

variable {m m' : MemoryThread ι ω}

@[simp] theorem shutDown_jobs : m.shutDown.jobs = m.jobs := rfl

/-- A job is put at the end if the queue drops the newest. -/
theorem post_jobs (hpolicy : m.queue.policy = .dropNewest) (job : ι) :
    (m.post job).2.executed = m.executed ∧ (m.post job).2.repo = m.repo ∧
      (m.post job).2.queue.policy = .dropNewest ∧
      ((m.post job).2.jobs = m.jobs ∨ (m.post job).2.jobs = m.jobs ++ [job]) := by
  simp only [post]
  split
  · exact ⟨rfl, rfl, hpolicy, .inl rfl⟩
  · split
    next ok queue hpush =>
      have hsame := BoundedQueue.push_capacity hpush
      refine ⟨rfl, rfl, hsame.2.1.trans hpolicy, ?_⟩
      unfold BoundedQueue.push at hpush
      split at hpush
      · cases hpush
        exact .inl rfl
      · split at hpush
        · rw [hpolicy] at hpush
          cases hpush
          exact .inl rfl
        · cases hpush
          exact .inr (by simp [jobs, BoundedQueue.append])
    · exact ⟨rfl, rfl, hpolicy, .inl rfl⟩

/-- The worker runs the jobs in the order of their posting. -/
theorem work_eq_some {exec : ω → ι → Repository → Repository} {outcome : ω} {job : ι}
    (h : m.work exec outcome = some (job, m')) :
    m'.executed = m.executed ++ [(job, outcome)] ∧ m'.repo = exec outcome job m.repo ∧
      m'.queue.policy = m.queue.policy ∧ m'.jobs = m.jobs ∧ job ∈ m.queue.items := by
  unfold work at h
  split at h
  · cases h
  · split at h
    next job' queue hpop =>
      cases h
      obtain ⟨x, hx, hitems, hqueue⟩ | ⟨hx, -⟩ := BoundedQueue.pop_eq_some hpop
      · cases hx
        refine ⟨rfl, rfl, by rw [hqueue], ?_, by rw [hitems]; exact List.mem_cons_self⟩
        simp [jobs, hitems]
      · cases hx
    · cases h

end MemoryThread

end Acva.Memory

import Acva.Event.BoundedFifo

/-! # A worker on a bounded queue

`Subscription::run` and `MemoryThread::run` are one loop: read the running flag, pop,
handle what was popped. Whoever stops the worker clears the flag first, then closes
the queue, and joins. The queue would still drain after the close, but the loop does
not go round once the flag is cleared.
-/

namespace Acva.Bus

open Acva.Runs

/-- Where the worker stands. -/
inductive WorkPc
  /-- About to read `running_`. -/
  | loop
  /-- Inside `pop()`. -/
  | popping
  /-- The item is being handled; what the handler throws is swallowed. -/
  | handling
  | exited
deriving DecidableEq, Repr

/-- Where the thread stands that stops the worker. -/
inductive StopPc
  | notCalled
  | flagged
  | closed
  | returned
deriving DecidableEq, Repr

structure QueueWorker (α : Type) where
  queue : BoundedQueue α
  running : Bool := true
  worker : WorkPc := .loop
  stopper : StopPc := .notCalled
deriving DecidableEq, Repr

inductive WorkAction (α : Type)
  /-- A producer pushes. -/
  | push (x : α)
  | testRunning
  | pop
  | handlerReturns
  | clearRunning
  | close
  | join
deriving DecidableEq, Repr

namespace QueueWorker

variable {α : Type}

/-- A worker whose thread has just started. -/
def start (capacity : Nat) (policy : OverflowPolicy) : QueueWorker α :=
  { queue := .fresh capacity policy }

def step (w : QueueWorker α) : WorkAction α → Option (QueueWorker α)
  | .push x => (w.queue.push x).map fun (_, queue) => { w with queue := queue }
  | .testRunning =>
      match w.worker with
      | .loop => some { w with worker := if w.running = true then .popping else .exited }
      | _ => none
  | .pop =>
      match w.worker with
      | .popping =>
          w.queue.pop.map fun (r, queue) =>
            { w with
              queue := queue
              worker := match r with | some _ => .handling | none => .exited }
      | _ => none
  | .handlerReturns =>
      match w.worker with
      | .handling => some { w with worker := .loop }
      | _ => none
  | .clearRunning =>
      if w.stopper = .notCalled then some { w with running := false, stopper := .flagged } else none
  | .close =>
      if w.stopper = .flagged then some { w with queue := w.queue.close, stopper := .closed }
      else none
  | .join =>
      match w.worker with
      | .exited => if w.stopper = .closed then some { w with stopper := .returned } else none
      | _ => none

/-- What a step does to the queue. -/
def queueOps : WorkAction α → List (QueueOp α)
  | .push x => [.push x]
  | .pop => [.pop]
  | .close => [.close]
  | _ => []

/-- The trace of the queue; what was popped was handled. -/
def note (t : QueueTrace α) (w : QueueWorker α) : WorkAction α → QueueTrace α
  | .push x => BoundedQueue.note t w.queue (.push x)
  | .pop => BoundedQueue.note t w.queue .pop
  | _ => t

/-- The worker does not leave its loop while the queue holds an item, and no push is accepted
once it has left. -/
def NothingLeft (w : QueueWorker α) : WorkAction α → Prop
  | .testRunning => w.running = true ∨ w.queue.items = []
  | .push x => w.worker = .exited → (w.queue.push x).map Prod.fst ≠ some true
  | _ => True

instance (w : QueueWorker α) (a : WorkAction α) : Decidable (w.NothingLeft a) := by
  cases a with
  | testRunning => exact inferInstanceAs (Decidable (_ ∨ _))
  | push x => exact inferInstanceAs (Decidable (_ → _))
  | _ => exact inferInstanceAs (Decidable True)

variable {w w' : QueueWorker α} {a : WorkAction α} {t t' : QueueTrace α}

/-! ## One step -/

/-- All that a step can do. -/
inductive WorkStep (w : QueueWorker α) : WorkAction α → QueueWorker α → Prop
  | push (x : α) (ok : Bool) (queue : BoundedQueue α) (hpush : w.queue.push x = some (ok, queue)) :
      WorkStep w (.push x) { w with queue := queue }
  | goRound (hloop : w.worker = .loop) (hrunning : w.running = true) :
      WorkStep w .testRunning { w with worker := .popping }
  | leave (hloop : w.worker = .loop) (hstopped : w.running = false) :
      WorkStep w .testRunning { w with worker := .exited }
  | take (x : α) (queue : BoundedQueue α) (hpopping : w.worker = .popping)
      (hpop : w.queue.pop = some (some x, queue)) :
      WorkStep w .pop { w with queue := queue, worker := .handling }
  | drained (queue : BoundedQueue α) (hpopping : w.worker = .popping)
      (hpop : w.queue.pop = some (none, queue)) :
      WorkStep w .pop { w with queue := queue, worker := .exited }
  | handled (hhandling : w.worker = .handling) :
      WorkStep w .handlerReturns { w with worker := .loop }
  | clearRunning (hcalled : w.stopper = .notCalled) :
      WorkStep w .clearRunning { w with running := false, stopper := .flagged }
  | close (hflagged : w.stopper = .flagged) :
      WorkStep w .close { w with queue := w.queue.close, stopper := .closed }
  | join (hexited : w.worker = .exited) (hclosed : w.stopper = .closed) :
      WorkStep w .join { w with stopper := .returned }

theorem step_eq_some (h : w.step a = some w') : WorkStep w a w' := by
  cases a with
  | push x =>
      obtain ⟨⟨ok, queue⟩, hpush, rfl⟩ := Option.map_eq_some_iff.mp h
      exact .push x ok queue hpush
  | testRunning =>
      simp only [step] at h
      split at h
      next hloop =>
        cases h
        by_cases hrunning : w.running = true
        · rw [if_pos hrunning]
          exact .goRound hloop hrunning
        · rw [if_neg hrunning]
          exact .leave hloop (Bool.eq_false_iff.mpr hrunning)
      next => cases h
  | pop =>
      simp only [step] at h
      split at h
      next hpopping =>
        obtain ⟨⟨r, queue⟩, hpop, rfl⟩ := Option.map_eq_some_iff.mp h
        cases r with
        | some x => exact .take x queue hpopping hpop
        | none => exact .drained queue hpopping hpop
      next => cases h
  | handlerReturns =>
      simp only [step] at h
      split at h
      next hhandling =>
        cases h
        exact .handled hhandling
      next => cases h
  | clearRunning =>
      simp only [step] at h
      split at h
      next hcalled =>
        cases h
        exact .clearRunning hcalled
      next => cases h
  | close =>
      simp only [step] at h
      split at h
      next hflagged =>
        cases h
        exact .close hflagged
      next => cases h
  | join =>
      simp only [step] at h
      split at h
      next hexited =>
        split at h
        next hclosed =>
          cases h
          exact .join hexited hclosed
        next => cases h
      next => cases h

/-- A step works the queue as it says, and is seen by the callers accordingly. -/
theorem projects_queue : Projects (watch step note)
    (watch (BoundedQueue.step (α := α)) BoundedQueue.note)
    (fun p => (p.1.queue, p.2)) (fun _ a => queueOps a) := by
  rintro ⟨w, t⟩ a ⟨w', t'⟩ hs
  obtain ⟨hstep, hnote⟩ := watch_eq_some.mp hs
  simp only at hstep hnote
  subst hnote
  have hone : ∀ op, w.queue.step op = some w'.queue →
      run (watch BoundedQueue.step BoundedQueue.note) (w.queue, t) [op] =
        some (w'.queue, BoundedQueue.note t w.queue op) :=
    fun op hop => run_cons_eq_some.mpr ⟨_, watch_eq_some.mpr ⟨hop, rfl⟩, rfl⟩
  cases step_eq_some hstep with
  | push x ok queue hpush => exact hone (.push x) (by simp [BoundedQueue.step, hpush])
  | take x queue _ hpop => exact hone .pop (by simp [BoundedQueue.step, hpop])
  | drained queue _ hpop => exact hone .pop (by simp [BoundedQueue.step, hpop])
  | close _ => exact hone .close rfl
  | _ => rfl

/-- Once it has left its loop, the worker has left nothing in the queue. -/
def LeftNothing (w : QueueWorker α) : Prop := w.worker = .exited → w.queue.items = []

/-- The thread that stops the worker returns after the worker. -/
def Joined (w : QueueWorker α) : Prop := w.stopper = .returned → w.worker = .exited

theorem push_items {x : α} {q q' : BoundedQueue α} {ok : Bool} (h : q.push x = some (ok, q')) :
    (ok = true ∧ q'.items ≠ []) ∨ (ok = false ∧ q'.items = q.items) := by
  unfold BoundedQueue.push at h
  split at h
  · cases h
    exact .inr ⟨rfl, rfl⟩
  · split at h
    · split at h
      · cases h
        exact .inl ⟨rfl, by simp [BoundedQueue.append]⟩
      · cases h
        exact .inr ⟨rfl, rfl⟩
      · cases h
    · cases h
      exact .inl ⟨rfl, by simp [BoundedQueue.append]⟩

/-- A step leaves nothing behind exactly if it is permitted. -/
theorem step_leftNothing_iff (hl : w.LeftNothing) (h : w.step a = some w') :
    w'.LeftNothing ↔ w.NothingLeft a := by
  have hbusy : ∀ w' : QueueWorker α, w'.worker ≠ .exited → w'.LeftNothing :=
    fun w' hne hexited => absurd hexited hne
  cases step_eq_some h with
  | push x ok queue hpush =>
      simp only [LeftNothing, NothingLeft, hpush, Option.map_some, ne_eq, Option.some.injEq]
      refine forall_congr' fun hexited => ?_
      rcases push_items hpush with ⟨rfl, hitems⟩ | ⟨rfl, hitems⟩
      · exact iff_of_false hitems (fun hne => hne rfl)
      · exact iff_of_true (hitems.trans (hl hexited)) (by decide)
  | goRound _ hrunning => exact iff_of_true (hbusy _ (by simp)) (.inl hrunning)
  | leave _ hstopped => simp [LeftNothing, NothingLeft, hstopped]
  | take x queue _ _ => exact iff_of_true (hbusy _ (by simp)) trivial
  | drained queue _ hpop =>
      obtain ⟨x, hx, -⟩ | ⟨-, hitems, -, rfl⟩ := BoundedQueue.pop_eq_some hpop
      · cases hx
      · exact iff_of_true (fun _ => hitems) trivial
  | handled _ => exact iff_of_true (hbusy _ (by simp)) trivial
  | clearRunning _ => exact iff_of_true hl trivial
  | close _ => exact iff_of_true hl trivial
  | join _ _ => exact iff_of_true hl trivial

/-- What a worker has left behind stays there. -/
theorem step_not_leftNothing (hl : ¬ w.LeftNothing) (h : w.step a = some w') :
    ¬ w'.LeftNothing := by
  obtain ⟨hexited, hitems⟩ := Classical.not_imp.mp hl
  refine Classical.not_imp.mpr ?_
  cases step_eq_some h with
  | push x ok queue hpush =>
      refine ⟨hexited, ?_⟩
      rcases push_items hpush with ⟨-, hnew⟩ | ⟨-, hsame⟩
      · exact hnew
      · exact fun hnil => hitems (hsame.symm.trans hnil)
  | goRound hloop _ => simp [hexited] at hloop
  | leave hloop _ => simp [hexited] at hloop
  | take x queue hpopping _ => simp [hexited] at hpopping
  | drained queue hpopping _ => simp [hexited] at hpopping
  | handled hhandling => simp [hexited] at hhandling
  | clearRunning _ => exact ⟨hexited, hitems⟩
  | close _ => exact ⟨hexited, hitems⟩
  | join _ _ => exact ⟨hexited, hitems⟩

theorem Joined.step (hj : w.Joined) (h : w.step a = some w') : w'.Joined := by
  have hat : ∀ pc, w.worker = pc → pc ≠ .exited → w.stopper ≠ .returned :=
    fun pc hpc hne hreturned => hne (hpc.symm.trans (hj hreturned))
  cases step_eq_some h with
  | push x ok queue _ => exact hj
  | goRound hloop _ => exact fun hreturned => absurd hreturned (hat _ hloop (by simp))
  | leave _ _ => exact fun _ => rfl
  | take x queue hpopping _ => exact fun hreturned => absurd hreturned (hat _ hpopping (by simp))
  | drained queue _ _ => exact fun _ => rfl
  | handled hhandling => exact fun hreturned => absurd hreturned (hat _ hhandling (by simp))
  | clearRunning _ => exact fun hreturned => by cases hreturned
  | close _ => exact fun hreturned => by cases hreturned
  | join hexited _ => exact fun _ => hexited

/-! ## Runs -/

theorem run_ledgered {capacity : Nat} {policy : OverflowPolicy} {acts : List (WorkAction α)}
    (hrun : run (watch step note) (start capacity policy, {}) acts = some (w, t)) :
    ∃ l, BoundedQueue.Ledgered w.queue t l :=
  BoundedQueue.run_ledgered (BoundedQueue.fresh_ledgered capacity policy) (projects_queue.run hrun)

/-- When the stop has returned, every accepted item was handled, once and in order, exactly
if the worker never left its loop with items in the queue or still to come. -/
theorem allServed_iff {capacity : Nat} {policy : OverflowPolicy} {acts : List (WorkAction α)}
    (hrun : run (watch step note) (start capacity policy, {}) acts = some (w, t))
    (hreturned : w.stopper = .returned) :
    t.AllServed ↔ Always step NothingLeft (start capacity policy) acts := by
  have hplain := run_of_watch hrun
  have hjoined : w.Joined := run_preserves Joined (fun _ _ _ hj hs => hj.step hs) hplain
    (fun hreturned => by cases hreturned)
  obtain ⟨l, hl⟩ := run_ledgered hrun
  have hleft : w.LeftNothing ↔ Always step NothingLeft (start capacity policy) acts :=
    run_iff_always (fun _ => True) LeftNothing (fun _ _ _ _ _ => trivial)
      (fun _ _ _ _ hl hs => step_leftNothing_iff hl hs)
      (fun _ _ _ _ hl hs => step_not_leftNothing hl hs) hplain trivial
      (fun hexited => by cases hexited)
  rw [hl.allServed_iff, ← hleft]
  exact ⟨fun hitems _ => hitems, fun hnothing => hnothing (hjoined hreturned)⟩

end QueueWorker

end Acva.Bus

import Acva.Event.Bus
import Acva.Event.QueueWorker

/-! # Stopping a subscription

`stop()` is meant to drain the queue first and then to join the worker. Events that
are still queued when the worker comes back to the head of its loop are lost.
-/

namespace Acva.Bus

open Acva.Runs

/-! ## A subscription on the bus -/

namespace Subscription

/-- The worker of a subscription on the bus, where `stop()` clears the flag and closes the
queue in one step. -/
def view (sub : Subscription) : QueueWorker Event where
  queue := sub.queue
  running := sub.running
  worker := match sub.worker with
    | .loop => .loop
    | .popping => .popping
    | .handling _ _ => .handling
    | .exited => .exited
  stopper := if sub.running = true then .notCalled else .closed

/-- Some steps of the worker lead from one to the other. -/
def Moves (sub sub' : Subscription) : Prop :=
  ∃ acts, run QueueWorker.step sub.view acts = some sub'.view

theorem Moves.refl (sub : Subscription) : Moves sub sub := ⟨[], rfl⟩

theorem Moves.trans {sub sub₁ sub₂ : Subscription} (h : Moves sub sub₁) (h' : Moves sub₁ sub₂) :
    Moves sub sub₂ := by
  obtain ⟨acts, hrun⟩ := h
  obtain ⟨acts', hrun'⟩ := h'
  exact ⟨acts ++ acts', by rw [run_append, hrun]; exact hrun'⟩

theorem moves_of_step {sub sub' : Subscription} {a : WorkAction Event}
    (h : sub.view.step a = some sub'.view) : Moves sub sub' :=
  ⟨[a], run_cons_eq_some.mpr ⟨_, h, rfl⟩⟩

theorem moves_of_push {sub : Subscription} {e : Event} {r : Bool × BoundedQueue Event}
    (h : sub.queue.push e = some r) : Moves sub { sub with queue := r.2 } :=
  moves_of_step (a := .push e) (by simp [view, QueueWorker.step, h])

theorem moves_requestStop (sub : Subscription) : Moves sub sub.requestStop := by
  unfold requestStop
  by_cases hrunning : sub.running = true
  · rw [if_pos hrunning]
    exact ⟨[.clearRunning, .close], by simp [view, QueueWorker.step, hrunning]⟩
  · rw [if_neg hrunning]
    exact Moves.refl sub

end Subscription

namespace EventBus

variable {κ ι ε : Type} {comps : Components κ ι ε} {b b' : EventBus κ} {i j : Nat}
  {sub new : Subscription}

/-- Only the subscription that is set moves. -/
theorem moves_set {x : Subscription} (hi : b.subs[i]? = some sub) (hj : b.subs[j]? = some x)
    (hmoves : x.Moves new) :
    ∃ sub', (b.subs.set j new)[i]? = some sub' ∧ sub.Moves sub' := by
  by_cases hij : j = i
  · subst hij
    rw [hj] at hi
    cases hi
    have hlt : j < b.subs.length := (List.getElem?_eq_some_iff.mp hj).choose
    exact ⟨new, List.getElem?_set_self hlt, hmoves⟩
  · exact ⟨sub, by rw [List.getElem?_set_ne hij, hi], Subscription.Moves.refl sub⟩

theorem pushTo_moves {e : Event} (hi : b.subs[i]? = some sub) (h : b.pushTo j e = some b') :
    ∃ sub', b'.subs[i]? = some sub' ∧ sub.Moves sub' := by
  unfold pushTo at h
  split at h
  · cases h
  next x hj =>
    obtain ⟨r, hpush, rfl⟩ := Option.map_eq_some_iff.mp h
    exact moves_set hi hj (Subscription.moves_of_push hpush)

/-- Where a worker is handling an event, it does not matter here what it publishes. -/
theorem moves_handling {x : Subscription} {current current' : Option Publishing}
    {todo todo' : List Event} (hworker : x.worker = .handling current todo) :
    x.Moves { x with worker := .handling current' todo' } :=
  ⟨[], by simp [Subscription.view, hworker]⟩

/-- Whatever happens on the bus, a subscription moves as its worker can. -/
theorem step_moves {a : BusAction ι ε} (hi : b.subs[i]? = some sub)
    (h : b.step comps a = some b') : ∃ sub', b'.subs[i]? = some sub' ∧ sub.Moves sub' := by
  have hstays : ∀ b' : EventBus κ, b'.subs = b.subs →
      ∃ sub', b'.subs[i]? = some sub' ∧ sub.Moves sub' :=
    fun b' hsame => ⟨sub, hsame ▸ hi, Subscription.Moves.refl sub⟩
  cases busStep h with
  | subscribe target capacity policy =>
      have hlt : i < b.subs.length := (List.getElem?_eq_some_iff.mp hi).choose
      exact ⟨sub, by rw [List.getElem?_append_left hlt, hi], Subscription.Moves.refl sub⟩
  | refused p e hp hdown => exact hstays b rfl
  | publish p e hp hup => exact hstays _ rfl
  | delivered p e hp => exact hstays _ rfl
  | deliver p e j rest _ hp hpush =>
      refine pushTo_moves ?_ hpush
      exact hi
  | testRunning j x hj hloop =>
      refine moves_set hi hj (Subscription.moves_of_step (a := .testRunning) ?_)
      simp only [Subscription.view, QueueWorker.step, hloop]
      split <;> rfl
  | exit j input x queue hj hpopping hpop =>
      refine moves_set hi hj (Subscription.moves_of_step (a := .pop) ?_)
      simp [Subscription.view, QueueWorker.step, hpopping, hpop]
  | handle j input x e queue hj hpopping hpop =>
      refine moves_set hi hj (Subscription.moves_of_step (a := .pop) ?_)
      simp [Subscription.view, QueueWorker.step, hpopping, hpop]
  | workerRefused j x e todo hj hworker hdown => exact moves_set hi hj (moves_handling hworker)
  | workerPublish j x e todo hj hworker hup => exact moves_set hi hj (moves_handling hworker)
  | workerDelivered j x e todo hj hworker => exact moves_set hi hj (moves_handling hworker)
  | workerDeliver j x e k rest todo _ hj hworker hpush =>
      have hgoesOn : x.Moves { x with worker := .handling (some ⟨e, rest⟩) todo } :=
        moves_handling hworker
      obtain ⟨sub₁, hsub₁, hmoves⟩ := moves_set hi hj hgoesOn
      obtain ⟨sub₂, hsub₂, hmoves'⟩ := pushTo_moves hsub₁ hpush
      exact ⟨sub₂, hsub₂, hmoves.trans hmoves'⟩
  | handlerReturns j x hj hworker =>
      refine moves_set hi hj (Subscription.moves_of_step (a := .handlerReturns) ?_)
      simp [Subscription.view, QueueWorker.step, hworker]
  | stop j x hj => exact moves_set hi hj (Subscription.moves_requestStop x)
  | shutdown => exact hstays _ rfl
  | component e components henv => exact hstays _ rfl

/-- The bus refines its workers: along every run of it, whatever the other subscriptions do, each
subscription makes a run of its worker. What is shown of the runs of a worker holds of it. -/
theorem run_refinesWorkers {acts : List (BusAction ι ε)} (hi : b.subs[i]? = some sub)
    (hrun : run (step comps) b acts = some b') :
    ∃ sub', b'.subs[i]? = some sub' ∧ sub.Moves sub' := by
  refine run_preserves (fun b => ∃ sub', b.subs[i]? = some sub' ∧ sub.Moves sub')
    (fun b a b' hb hs => ?_) hrun ⟨sub, hi, Subscription.Moves.refl sub⟩
  obtain ⟨sub₁, hsub₁, hmoves⟩ := hb
  obtain ⟨sub₂, hsub₂, hmoves'⟩ := step_moves hsub₁ hs
  exact ⟨sub₂, hsub₂, hmoves.trans hmoves'⟩

end EventBus

/-! ## What a stop leaves -/

namespace Subscription

/-- A subscription's worker, from its construction to the return of `stop()`. -/
abbrev Worker := QueueWorker Event

/-- When `stop()` has returned, each event that was accepted and not evicted was passed to
the handler, once and in the order of the pushes, exactly if the worker did not leave its
loop with events queued or still to be accepted. -/
theorem stop_allServed_iff {capacity : Nat} {policy : OverflowPolicy}
    {acts : List (WorkAction Event)} {w : Worker} {t : QueueTrace Event}
    (hrun : run (watch QueueWorker.step QueueWorker.note)
      (QueueWorker.start capacity policy, {}) acts = some (w, t))
    (hreturned : w.stopper = .returned) :
    t.AllServed ↔
      Always QueueWorker.step QueueWorker.NothingLeft (QueueWorker.start capacity policy) acts :=
  QueueWorker.allServed_iff hrun hreturned

def speech : Event := .speechStarted {}

/-- The worker handles the one event and waits in `pop()` for more when it is stopped. -/
def stopWhileIdle : List (WorkAction Event) :=
  [.push speech, .testRunning, .pop, .handlerReturns, .testRunning, .clearRunning, .close, .pop,
    .join]

/-- The second event comes while the first one is handled, and the stop before the worker
gets back to its loop. -/
def stopWhileHandling : List (WorkAction Event) :=
  [.push speech, .testRunning, .pop, .push speech, .clearRunning, .close, .handlerReturns,
    .testRunning, .join]

theorem stop_allServed_iff_whileIdle :
    ∃ w t, run (watch QueueWorker.step QueueWorker.note)
      (QueueWorker.start 256 .dropOldest, {}) stopWhileIdle = some (w, t) ∧
        t.popped = [speech] ∧ t.AllServed := by
  obtain ⟨w, t, hrun, hpopped, hreturned⟩ : ∃ w t,
      run (watch QueueWorker.step QueueWorker.note) (QueueWorker.start 256 .dropOldest, {})
        stopWhileIdle = some (w, t) ∧ t.popped = [speech] ∧ w.stopper = .returned :=
    ⟨_, _, rfl, rfl, rfl⟩
  exact ⟨w, t, hrun, hpopped, (stop_allServed_iff hrun hreturned).mpr (by decide)⟩

/-- The second event was accepted and is never handled. -/
theorem stopWhileHandling_loses :
    ∃ w t, run (watch QueueWorker.step QueueWorker.note)
      (QueueWorker.start 256 .dropOldest, {}) stopWhileHandling = some (w, t) ∧
        w.stopper = .returned ∧ t.accepted = [speech, speech] ∧ t.evicted = [] ∧
          t.popped = [speech] ∧ ¬ t.AllServed := by
  obtain ⟨w, t, hrun, hreturned, haccepted, hevicted, hpopped⟩ : ∃ w t,
      run (watch QueueWorker.step QueueWorker.note) (QueueWorker.start 256 .dropOldest, {})
        stopWhileHandling = some (w, t) ∧ w.stopper = .returned ∧
          t.accepted = [speech, speech] ∧ t.evicted = [] ∧ t.popped = [speech] :=
    ⟨_, _, rfl, rfl, rfl, rfl, rfl⟩
  refine ⟨w, t, hrun, hreturned, haccepted, hevicted, hpopped, ?_⟩
  rintro ⟨l, hall, hserved, hdiscarded, hwaiting⟩
  have hlength := Ledger.length_arrivals l
  rw [hall, hserved, hdiscarded, hwaiting, haccepted, hpopped, hevicted] at hlength
  cases hlength

end Subscription

end Acva.Bus

import Acva.Core.Runs
import Acva.Event.BoundedQueue
import Acva.Event.Event
import Mathlib.Logic.Function.Basic

/-! # The event bus

Every subscription has a bounded queue and one worker. A publisher takes a
snapshot of the subscriptions and then pushes to their queues one by one; a
handler that publishes is itself such a publisher, on its worker's thread. The
components behind the handlers are a parameter: what a handler publishes, and
what their other threads do, depends on their state.
-/

namespace Acva.Bus

open Acva.Runs

/-- The components behind the handlers. `react` is a handler with the inputs it reads
from outside (clock, gates): the new state, taken as it enters the handler, and what the
handler publishes, in order. `env` is a step of a component's own thread. -/
structure Components (κ ι ε : Type) where
  react : Nat → ι → Event → κ → κ × List Event
  env : ε → κ → Option κ

/-- A call of `publish_event` with the subscriptions it has still to push to. -/
structure Publishing where
  event : Event
  targets : List Nat
deriving DecidableEq, Repr

/-- Where a worker stands. -/
inductive WorkerPc
  /-- About to read `running_`. -/
  | loop
  /-- Inside `pop()`. -/
  | popping
  /-- Inside the handler: the publish it is in, and what it will publish after it. -/
  | handling (current : Option Publishing) (todo : List Event)
  | exited
deriving DecidableEq, Repr

/-- `target = none` subscribes to every event. -/
structure Subscription where
  target : Option EventKind
  queue : BoundedQueue Event
  running : Bool := true
  worker : WorkerPc := .loop
deriving DecidableEq, Repr

namespace Subscription

def wants (sub : Subscription) (e : Event) : Bool :=
  sub.target = none || sub.target = some e.kind

/-- `stop()` up to the join: the worker is told, and the queue is closed. -/
def requestStop (sub : Subscription) : Subscription :=
  if sub.running = true then { sub with running := false, queue := sub.queue.close } else sub

end Subscription

/-- `publishers` are the threads outside the workers, each in one publish at most. -/
structure EventBus (κ : Type) where
  subs : List Subscription := []
  shuttingDown : Bool := false
  published : Nat := 0
  publishers : Nat → Option Publishing := fun _ => none
  components : κ

inductive BusAction (ι ε : Type)
  | subscribe (target : Option EventKind) (capacity : Nat) (policy : OverflowPolicy)
  | publish (p : Nat) (e : Event)
  | deliver (p : Nat)
  | testRunning (i : Nat)
  | pop (i : Nat) (input : ι)
  | workerPublish (i : Nat)
  | workerDeliver (i : Nat)
  | handlerReturns (i : Nat)
  | stop (i : Nat)
  | shutdown
  | component (step : ε)
deriving DecidableEq, Repr

namespace EventBus

variable {κ ι ε : Type}

/-- The subscriptions that an event published now goes to. -/
def snapshot (e : Event) (b : EventBus κ) : List Nat :=
  (List.range b.subs.length).filter fun i => (b.subs[i]?.map fun sub => sub.wants e).getD false

def setSub (i : Nat) (sub : Subscription) (b : EventBus κ) : EventBus κ :=
  { b with subs := b.subs.set i sub }

def setWorker (i : Nat) (sub : Subscription) (pc : WorkerPc) (b : EventBus κ) : EventBus κ :=
  b.setSub i { sub with worker := pc }

/-- Push to the first target; no result while its queue makes the thread wait. -/
def pushTo (j : Nat) (e : Event) (b : EventBus κ) : Option (EventBus κ) :=
  match b.subs[j]? with
  | none => none
  | some sub => (sub.queue.push e).map fun (_, q) => b.setSub j { sub with queue := q }

def step (comps : Components κ ι ε) (b : EventBus κ) :
    BusAction ι ε → Option (EventBus κ)
  | .subscribe target capacity policy =>
      some { b with
        subs := b.subs ++
          [{ target := target, queue := { capacity := capacity, policy := policy } }] }
  | .publish p e =>
      match b.publishers p with
      | some _ => none
      | none =>
          if b.shuttingDown = true then some b
          else some { b with
            published := b.published + 1
            publishers := Function.update b.publishers p (some ⟨e, b.snapshot e⟩) }
  | .deliver p =>
      match b.publishers p with
      | none => none
      | some ⟨_, []⟩ => some { b with publishers := Function.update b.publishers p none }
      | some ⟨e, j :: rest⟩ =>
          pushTo j e { b with publishers := Function.update b.publishers p (some ⟨e, rest⟩) }
  | .testRunning i =>
      match b.subs[i]? with
      | some sub =>
          if sub.worker = .loop then
            some (b.setWorker i sub (if sub.running = true then .popping else .exited))
          else none
      | none => none
  | .pop i input =>
      match b.subs[i]? with
      | some sub =>
          if sub.worker = .popping then
            match sub.queue.pop with
            | none => none
            | some (none, q) => some (b.setSub i { sub with queue := q, worker := .exited })
            | some (some e, q) =>
                let (components, out) := comps.react i input e b.components
                some { b.setSub i { sub with queue := q, worker := .handling none out } with
                  components := components }
          else none
      | none => none
  | .workerPublish i =>
      match b.subs[i]? with
      | some sub =>
          match sub.worker with
          | .handling none (e :: todo) =>
              if b.shuttingDown = true then some (b.setWorker i sub (.handling none todo))
              else some { b.setWorker i sub (.handling (some ⟨e, b.snapshot e⟩) todo) with
                published := b.published + 1 }
          | _ => none
      | none => none
  | .workerDeliver i =>
      match b.subs[i]? with
      | some sub =>
          match sub.worker with
          | .handling (some ⟨_, []⟩) todo => some (b.setWorker i sub (.handling none todo))
          | .handling (some ⟨e, j :: rest⟩) todo =>
              (b.setWorker i sub (.handling (some ⟨e, rest⟩) todo)).pushTo j e
          | _ => none
      | none => none
  | .handlerReturns i =>
      match b.subs[i]? with
      | some sub =>
          if sub.worker = .handling none [] then some (b.setWorker i sub .loop) else none
      | none => none
  | .stop i =>
      match b.subs[i]? with
      | some sub => some (b.setSub i sub.requestStop)
      | none => none
  | .shutdown => some { b with shuttingDown := true }
  | .component e => (comps.env e b.components).map fun components =>
      { b with components := components }

/-! ## What a step can do -/

/-- The steps of the bus, each with the state it is taken in. -/
inductive BusStep (comps : Components κ ι ε) (b : EventBus κ) :
    BusAction ι ε → EventBus κ → Prop
  | subscribe (target : Option EventKind) (capacity : Nat) (policy : OverflowPolicy) :
      BusStep comps b (.subscribe target capacity policy)
        { b with
          subs := b.subs ++
            [{ target := target, queue := { capacity := capacity, policy := policy } }] }
  | refused (p : Nat) (e : Event) (hp : b.publishers p = none) (hdown : b.shuttingDown = true) :
      BusStep comps b (.publish p e) b
  | publish (p : Nat) (e : Event) (hp : b.publishers p = none) (hup : ¬ b.shuttingDown = true) :
      BusStep comps b (.publish p e)
        { b with
          published := b.published + 1
          publishers := Function.update b.publishers p (some ⟨e, b.snapshot e⟩) }
  | delivered (p : Nat) (e : Event) (hp : b.publishers p = some ⟨e, []⟩) :
      BusStep comps b (.deliver p) { b with publishers := Function.update b.publishers p none }
  | deliver (p : Nat) (e : Event) (j : Nat) (rest : List Nat) (b' : EventBus κ)
      (hp : b.publishers p = some ⟨e, j :: rest⟩)
      (hpush : pushTo j e { b with
        publishers := Function.update b.publishers p (some ⟨e, rest⟩) } = some b') :
      BusStep comps b (.deliver p) b'
  | testRunning (i : Nat) (sub : Subscription) (hsub : b.subs[i]? = some sub)
      (hloop : sub.worker = .loop) :
      BusStep comps b (.testRunning i)
        (b.setWorker i sub (if sub.running = true then .popping else .exited))
  | exit (i : Nat) (input : ι) (sub : Subscription) (q : BoundedQueue Event)
      (hsub : b.subs[i]? = some sub) (hpopping : sub.worker = .popping)
      (hpop : sub.queue.pop = some (none, q)) :
      BusStep comps b (.pop i input) (b.setSub i { sub with queue := q, worker := .exited })
  | handle (i : Nat) (input : ι) (sub : Subscription) (e : Event) (q : BoundedQueue Event)
      (hsub : b.subs[i]? = some sub) (hpopping : sub.worker = .popping)
      (hpop : sub.queue.pop = some (some e, q)) :
      BusStep comps b (.pop i input)
        { b.setSub i { sub with
            queue := q, worker := .handling none (comps.react i input e b.components).2 } with
          components := (comps.react i input e b.components).1 }
  | workerRefused (i : Nat) (sub : Subscription) (e : Event) (todo : List Event)
      (hsub : b.subs[i]? = some sub) (hworker : sub.worker = .handling none (e :: todo))
      (hdown : b.shuttingDown = true) :
      BusStep comps b (.workerPublish i) (b.setWorker i sub (.handling none todo))
  | workerPublish (i : Nat) (sub : Subscription) (e : Event) (todo : List Event)
      (hsub : b.subs[i]? = some sub) (hworker : sub.worker = .handling none (e :: todo))
      (hup : ¬ b.shuttingDown = true) :
      BusStep comps b (.workerPublish i)
        { b.setWorker i sub (.handling (some ⟨e, b.snapshot e⟩) todo) with
          published := b.published + 1 }
  | workerDelivered (i : Nat) (sub : Subscription) (e : Event) (todo : List Event)
      (hsub : b.subs[i]? = some sub) (hworker : sub.worker = .handling (some ⟨e, []⟩) todo) :
      BusStep comps b (.workerDeliver i) (b.setWorker i sub (.handling none todo))
  | workerDeliver (i : Nat) (sub : Subscription) (e : Event) (j : Nat) (rest : List Nat)
      (todo : List Event) (b' : EventBus κ) (hsub : b.subs[i]? = some sub)
      (hworker : sub.worker = .handling (some ⟨e, j :: rest⟩) todo)
      (hpush : (b.setWorker i sub (.handling (some ⟨e, rest⟩) todo)).pushTo j e = some b') :
      BusStep comps b (.workerDeliver i) b'
  | handlerReturns (i : Nat) (sub : Subscription) (hsub : b.subs[i]? = some sub)
      (hworker : sub.worker = .handling none []) :
      BusStep comps b (.handlerReturns i) (b.setWorker i sub .loop)
  | stop (i : Nat) (sub : Subscription) (hsub : b.subs[i]? = some sub) :
      BusStep comps b (.stop i) (b.setSub i sub.requestStop)
  | shutdown : BusStep comps b .shutdown { b with shuttingDown := true }
  | component (e : ε) (components : κ) (henv : comps.env e b.components = some components) :
      BusStep comps b (.component e) { b with components := components }

theorem busStep {comps : Components κ ι ε} {b b' : EventBus κ} {a : BusAction ι ε}
    (h : b.step comps a = some b') : BusStep comps b a b' := by
  cases a with
  | subscribe target capacity policy =>
      cases h
      exact .subscribe target capacity policy
  | publish p e =>
      simp only [step] at h
      split at h
      next => cases h
      next hp =>
        split at h
        next hdown =>
          cases h
          exact .refused p e hp hdown
        next hup =>
          cases h
          exact .publish p e hp hup
  | deliver p =>
      simp only [step] at h
      split at h
      next => cases h
      next e hp =>
        cases h
        exact .delivered p e hp
      next e j rest hp => exact .deliver p e j rest b' hp h
  | testRunning i =>
      simp only [step] at h
      split at h
      next sub hsub =>
        split at h
        next hloop =>
          cases h
          exact .testRunning i sub hsub hloop
        next => cases h
      next => cases h
  | pop i input =>
      simp only [step] at h
      split at h
      next sub hsub =>
        split at h
        next hpopping =>
          split at h
          next => cases h
          next q hpop =>
            cases h
            exact .exit i input sub q hsub hpopping hpop
          next e q hpop =>
            cases h
            exact .handle i input sub e q hsub hpopping hpop
        next => cases h
      next => cases h
  | workerPublish i =>
      simp only [step] at h
      split at h
      next sub hsub =>
        split at h
        next e todo hworker =>
          split at h
          next hdown =>
            cases h
            exact .workerRefused i sub e todo hsub hworker hdown
          next hup =>
            cases h
            exact .workerPublish i sub e todo hsub hworker hup
        next => cases h
      next => cases h
  | workerDeliver i =>
      simp only [step] at h
      split at h
      next sub hsub =>
        split at h
        next e todo hworker =>
          cases h
          exact .workerDelivered i sub e todo hsub hworker
        next e j rest todo hworker =>
          exact .workerDeliver i sub e j rest todo b' hsub hworker h
        next => cases h
      next => cases h
  | handlerReturns i =>
      simp only [step] at h
      split at h
      next sub hsub =>
        split at h
        next hworker =>
          cases h
          exact .handlerReturns i sub hsub hworker
        next => cases h
      next => cases h
  | stop i =>
      simp only [step] at h
      split at h
      next sub hsub =>
        cases h
        exact .stop i sub hsub
      next => cases h
  | shutdown =>
      cases h
      exact .shutdown
  | component e =>
      obtain ⟨components, henv, rfl⟩ := Option.map_eq_some_iff.mp h
      exact .component e components henv

end EventBus

end Acva.Bus

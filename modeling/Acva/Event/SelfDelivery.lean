import Acva.Event.Bus

/-! # Handlers that publish to their own subscription

A worker is the only consumer of its queue. While its handler has an event to
push into that queue nothing takes events out of it, so the room the handler
needs has to be left by everybody else who pushes.
-/

namespace Acva.Bus

open Acva.Runs

namespace Subscription

/-- The worker of subscription `i` is inside a handler that has an event to push into its
own queue, now or later. -/
def owesItself (i : Nat) (sub : Subscription) : Bool :=
  match sub.worker with
  | .handling current todo =>
      (current.map fun p => decide (i ∈ p.targets)).getD false || todo.any sub.wants
  | _ => false

/-- The worker is blocked in a push to its own full, open queue. -/
def BlockedOnItself (i : Nat) (sub : Subscription) : Prop :=
  ∃ e rest todo, sub.worker = .handling (some ⟨e, i :: rest⟩) todo ∧ sub.queue.policy = .block ∧
    sub.queue.closed = false ∧ sub.queue.capacity ≤ sub.queue.items.length

/-- A blocking queue is never overfull, and has room as long as its own handler needs it. -/
structure Roomy (i : Nat) (sub : Subscription) : Prop where
  bounded : sub.queue.policy = .block → sub.queue.items.length ≤ sub.queue.capacity
  room : sub.queue.policy = .block → sub.queue.closed = false → sub.owesItself i = true →
    sub.queue.items.length < sub.queue.capacity

theorem Roomy.not_blocked {i : Nat} {sub : Subscription} (h : sub.Roomy i) :
    ¬ sub.BlockedOnItself i := by
  rintro ⟨e, rest, todo, hworker, hpolicy, hopen, hfull⟩
  have howes : sub.owesItself i = true := by simp [owesItself, hworker]
  have hroom := h.room hpolicy hopen howes
  omega

/-- A worker that owes itself nothing more than before keeps the room it has. -/
theorem Roomy.setWorker {i : Nat} {sub : Subscription} {pc : WorkerPc} (h : sub.Roomy i)
    (howes : ({ sub with worker := pc } : Subscription).owesItself i = true →
      sub.owesItself i = true) :
    ({ sub with worker := pc } : Subscription).Roomy i :=
  ⟨h.bounded, fun hp hc ho => h.room hp hc (howes ho)⟩

theorem Roomy.requestStop {i : Nat} {sub : Subscription} (h : sub.Roomy i) :
    sub.requestStop.Roomy i := by
  unfold Subscription.requestStop
  split
  · exact ⟨h.bounded, fun _ hc => by simp at hc⟩
  · exact h

/-- Taking an event out makes the room the handler may need. -/
theorem Roomy.pop {i : Nat} {sub : Subscription} {r : Option Event}
    {q : BoundedQueue Event} {pc : WorkerPc} (h : sub.Roomy i) (hpop : sub.queue.pop = some (r, q))
    (hpc : r = none → pc = .exited) :
    ({ sub with queue := q, worker := pc } : Subscription).Roomy i := by
  rcases BoundedQueue.pop_eq_some hpop with ⟨x, rfl, hitems, hq⟩ | ⟨rfl, _, _, hq⟩
  · have hlen : sub.queue.items.length = q.items.length + 1 := by rw [hitems]; simp
    have hpolicy : q.policy = sub.queue.policy := by rw [hq]
    have hcap : q.capacity = sub.queue.capacity := by rw [hq]
    refine ⟨fun hp => ?_, fun hp _ _ => ?_⟩
    · have hb := h.bounded (hpolicy ▸ hp)
      simp only [hcap]
      omega
    · have hb := h.bounded (hpolicy ▸ hp)
      simp only [hcap]
      omega
  · rw [hpc rfl, hq]
    exact ⟨h.bounded, fun _ _ ho => by simp [owesItself] at ho⟩

/-- A push keeps the room if it leaves a slot for what the handler owes itself. -/
theorem Roomy.push {i : Nat} {sub : Subscription} {e : Event} {ok : Bool}
    {q : BoundedQueue Event} (h : sub.Roomy i) (hpush : sub.queue.push e = some (ok, q))
    (hroom : sub.queue.policy = .block → sub.queue.closed = false → sub.owesItself i = true →
      sub.queue.items.length + 1 < sub.queue.capacity) :
    ({ sub with queue := q } : Subscription).Roomy i := by
  obtain ⟨hcap, hpolicy, hclosed⟩ := BoundedQueue.push_capacity hpush
  constructor
  · intro hp
    have hblock : sub.queue.policy = .block := hpolicy ▸ hp
    rcases BoundedQueue.push_of_block hblock hpush with ⟨_, rfl⟩ | ⟨_, hlt, rfl⟩
    · exact h.bounded hblock
    · simp only [BoundedQueue.append, List.length_append, List.length_singleton]
      omega
  · intro hp hc ho
    have hblock : sub.queue.policy = .block := hpolicy ▸ hp
    have hopen : sub.queue.closed = false := hclosed ▸ hc
    have howes : sub.owesItself i = true := ho
    rcases BoundedQueue.push_of_block hblock hpush with ⟨hcl, _⟩ | ⟨_, _, rfl⟩
    · simp [hopen] at hcl
    · have hleft := hroom hblock hopen howes
      simp only [BoundedQueue.append, List.length_append, List.length_singleton]
      omega

end Subscription

namespace EventBus

variable {κ ι ε : Type} {comps : Components κ ι ε} {b b' : EventBus κ}

/-! ## The condition on a step -/

/-- The push that an action makes: the bus with the pusher already past it, the
subscription pushed to, and the event. -/
def pushPoint (b : EventBus κ) : BusAction ι ε → Option (EventBus κ × Nat × Event)
  | .deliver p =>
      match b.publishers p with
      | some ⟨e, j :: rest⟩ =>
          some ({ b with publishers := Function.update b.publishers p (some ⟨e, rest⟩) }, j, e)
      | _ => none
  | .workerDeliver i =>
      match b.subs[i]? with
      | some sub =>
          match sub.worker with
          | .handling (some ⟨e, j :: rest⟩) todo =>
              some (b.setWorker i sub (.handling (some ⟨e, rest⟩) todo), j, e)
          | _ => none
      | none => none
  | _ => none

/-- No push takes the last slot of a blocking queue whose own worker, inside a handler,
still has to push into it. -/
def LeavesRoom (b : EventBus κ) (a : BusAction ι ε) : Prop :=
  ∀ p ∈ b.pushPoint a, ∀ sub ∈ p.1.subs[p.2.1]?,
    sub.queue.policy = .block → sub.queue.closed = false → sub.owesItself p.2.1 = true →
      sub.queue.items.length + 1 < sub.queue.capacity

instance (b : EventBus κ) (a : BusAction ι ε) : Decidable (b.LeavesRoom a) := by
  unfold LeavesRoom
  infer_instance

/-- All subscriptions have the room their own handlers need. -/
def HasRoom (b : EventBus κ) : Prop :=
  ∀ i (sub : Subscription), b.subs[i]? = some sub → sub.Roomy i

/-! ## The steps -/

theorem HasRoom.setSub {i : Nat} {sub : Subscription} (h : b.HasRoom) (hs : sub.Roomy i) :
    (b.setSub i sub).HasRoom := by
  intro j other hj
  simp only [EventBus.setSub, List.getElem?_set] at hj
  split at hj
  next heq =>
    split at hj
    · cases hj
      exact heq ▸ hs
    · cases hj
  next => exact h j other hj

theorem HasRoom.pushTo {j : Nat} {e : Event} (h : b.HasRoom) (hpush : b.pushTo j e = some b')
    (hroom : ∀ sub, b.subs[j]? = some sub → sub.queue.policy = .block →
      sub.queue.closed = false → sub.owesItself j = true →
        sub.queue.items.length + 1 < sub.queue.capacity) : b'.HasRoom := by
  unfold EventBus.pushTo at hpush
  split at hpush
  · cases hpush
  next sub hsub =>
    obtain ⟨⟨ok, q⟩, hq, rfl⟩ := Option.map_eq_some_iff.mp hpush
    exact h.setSub ((h j sub hsub).push hq (hroom sub hsub))

/-- An event published by a handler comes back to it only if it subscribes to it. -/
theorem wants_of_mem_snapshot {i : Nat} {sub : Subscription} {e : Event}
    (hsub : b.subs[i]? = some sub) (h : i ∈ b.snapshot e) : sub.wants e = true := by
  simp only [snapshot, List.mem_filter, hsub] at h
  exact h.2

/-- A pusher that is past a push owes no more than before it. -/
theorem pushPoint_hasRoom {a : BusAction ι ε} {j : Nat} {e : Event} (h : b.HasRoom)
    (hpoint : b.pushPoint a = some (b', j, e)) : b'.HasRoom := by
  cases a with
  | deliver p =>
      simp only [pushPoint] at hpoint
      split at hpoint
      · cases hpoint
        exact h
      · cases hpoint
  | workerDeliver i =>
      simp only [pushPoint] at hpoint
      split at hpoint
      next sub hsub =>
        split at hpoint
        next e j rest todo hworker =>
          cases hpoint
          refine h.setSub ((h i sub hsub).setWorker fun howes => ?_)
          simp only [Subscription.owesItself, Option.map_some, Option.getD_some,
            Bool.or_eq_true, decide_eq_true_eq] at howes
          simp only [Subscription.owesItself, hworker, Option.map_some, Option.getD_some,
            Bool.or_eq_true, decide_eq_true_eq]
          exact howes.imp (List.mem_cons_of_mem _) id
        next => cases hpoint
      next => cases hpoint
  | _ => cases hpoint

/-- A step that pushes is its push; every other step keeps the room by itself. -/
theorem HasRoom.step {a : BusAction ι ε} (h : b.HasRoom) (hok : b.LeavesRoom a)
    (hs : b.step comps a = some b') : b'.HasRoom := by
  cases busStep hs with
  | subscribe target capacity policy =>
      intro i sub hi
      simp only [List.getElem?_append] at hi
      split at hi
      · exact h i sub hi
      · rw [List.getElem?_singleton] at hi
        split at hi
        · cases hi
          exact ⟨fun _ => Nat.zero_le _, fun _ _ ho => by simp [Subscription.owesItself] at ho⟩
        · cases hi
  | refused p e hp hdown => exact h
  | publish p e hp hup => exact h
  | delivered p e hp => exact h
  | deliver p e j rest _ hp hpush =>
      have hpoint : b.pushPoint (.deliver p : BusAction ι ε) =
          some ({ b with publishers := Function.update b.publishers p (some ⟨e, rest⟩) }, j, e) := by
        simp only [pushPoint, hp]
      exact (pushPoint_hasRoom h hpoint).pushTo hpush (hok _ hpoint)
  | testRunning i sub hsub hloop =>
      refine h.setSub ((h i sub hsub).setWorker fun howes => ?_)
      split at howes <;> simp [Subscription.owesItself] at howes
  | exit i input sub q hsub hpopping hpop =>
      exact h.setSub ((h i sub hsub).pop hpop fun _ => rfl)
  | handle i input sub e q hsub hpopping hpop =>
      exact h.setSub ((h i sub hsub).pop hpop (by simp))
  | workerRefused i sub e todo hsub hworker hdown =>
      refine h.setSub ((h i sub hsub).setWorker fun howes => ?_)
      simp only [Subscription.owesItself, hworker, Option.map_none, Option.getD_none,
        Bool.false_or, List.any_cons, Bool.or_eq_true] at howes ⊢
      exact .inr howes
  | workerPublish i sub e todo hsub hworker hup =>
      refine h.setSub ((h i sub hsub).setWorker fun howes => ?_)
      simp only [Subscription.owesItself, hworker, Option.map_some, Option.getD_some,
        Option.map_none, Option.getD_none, Bool.false_or, List.any_cons, Bool.or_eq_true,
        decide_eq_true_eq] at howes ⊢
      exact howes.imp (wants_of_mem_snapshot hsub) id
  | workerDelivered i sub e todo hsub hworker =>
      refine h.setSub ((h i sub hsub).setWorker fun howes => ?_)
      simp only [Subscription.owesItself, hworker, Option.map_some, Option.map_none,
        Option.getD_some, Option.getD_none, Bool.or_eq_true] at howes ⊢
      exact .inr (howes.resolve_left (by simp))
  | workerDeliver i sub e j rest todo _ hsub hworker hpush =>
      have hpoint : b.pushPoint (.workerDeliver i : BusAction ι ε) =
          some (b.setWorker i sub (.handling (some ⟨e, rest⟩) todo), j, e) := by
        simp only [pushPoint, hsub, hworker]
      exact (pushPoint_hasRoom h hpoint).pushTo hpush (hok _ hpoint)
  | handlerReturns i sub hsub hworker =>
      exact h.setSub ((h i sub hsub).setWorker fun howes => by
        simp [Subscription.owesItself] at howes)
  | stop i sub hsub => exact h.setSub (h i sub hsub).requestStop
  | shutdown => exact h
  | component e components henv => exact h

/-! ## Runs -/

/-- In no state of a run whose pushes leave the room that handlers need is a worker
blocked in a push to its own queue. -/
theorem not_blockedOnItself {components : κ} {acts : List (BusAction ι ε)}
    (hrun : run (step comps) { components := components } acts = some b)
    (hok : Always (step comps) LeavesRoom { components := components } acts)
    {i : Nat} {sub : Subscription} (hsub : b.subs[i]? = some sub) : ¬ sub.BlockedOnItself i := by
  have hinit : HasRoom ({ components := components } : EventBus κ) := by
    intro i sub hi
    simp at hi
  have hroom : b.HasRoom :=
    run_invariant (fun _ _ _ hi hok hs => hi.step hok hs) hrun hok hinit
  exact (hroom i sub hsub).not_blocked

end EventBus

end Acva.Bus

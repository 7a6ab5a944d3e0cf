import Acva.Core.Mailboxes
import Acva.Event.Bus

/-! # What a subscriber gets of a publisher

A publisher pushes its event to one queue after the other, and other publishers do so at the
same time. A subscriber handles the events of each publisher in the order in which they were
published and none of them twice. If its queue blocks and is not closed, it misses none.
-/

namespace Acva.Bus

open Acva.Mailboxes Acva.Runs

/-- Who publishes: a thread outside the workers, or a handler. -/
inductive Origin
  | thread (p : Nat)
  | worker (i : Nat)
deriving DecidableEq, Repr

/-- What a queue holds after a push that does not wait. -/
def BoundedQueue.accept {α β : Type} (x : β) (items : List β) (q : BoundedQueue α) : List β :=
  if q.closed = true then items
  else if q.full = true then
    match q.policy with
    | .dropOldest => items.tail ++ [x]
    | _ => items
  else items ++ [x]

/-- The queues with the publisher of each event, what was handled, and every publish with the
subscriptions it goes to. -/
structure BusLog where
  queued : Nat → List (Origin × Event) := fun _ => []
  handled : Nat → List (Origin × Event) := fun _ => []
  sent : List (Sending Origin Nat Event) := []

namespace BusLog

variable {κ ι ε : Type}

def send (o : Origin) (e : Event) (b : EventBus κ) (log : BusLog) : BusLog :=
  if b.shuttingDown = true then log
  else { log with sent := log.sent ++ [⟨o, e, b.snapshot e⟩] }

def post (o : Origin) (e : Event) (j : Nat) (b : EventBus κ) (log : BusLog) : BusLog :=
  match b.subs[j]? with
  | some sub =>
      { log with
        queued := Function.update log.queued j (sub.queue.accept (o, e) (log.queued j)) }
  | none => log

def hand (i : Nat) (log : BusLog) : BusLog :=
  match log.queued i with
  | x :: rest =>
      { log with
        queued := Function.update log.queued i rest
        handled := Function.update log.handled i (log.handled i ++ [x]) }
  | [] => log

def note (log : BusLog) (b : EventBus κ) : BusAction ι ε → BusLog
  | .publish p e => log.send (.thread p) e b
  | .deliver p =>
      match b.publishers p with
      | some ⟨e, j :: _⟩ => log.post (.thread p) e j b
      | _ => log
  | .pop i _ => log.hand i
  | .workerPublish i =>
      match b.subs[i]?.map Subscription.worker with
      | some (.handling none (e :: _)) => log.send (.worker i) e b
      | _ => log
  | .workerDeliver i =>
      match b.subs[i]?.map Subscription.worker with
      | some (.handling (some ⟨e, j :: _⟩) _) => log.post (.worker i) e j b
      | _ => log
  | _ => log

end BusLog

/-! ## Queues with tags -/

namespace BoundedQueue

variable {α β : Type} {q q' : BoundedQueue α}

theorem items_push {x : α} {ok : Bool} (h : q.push x = some (ok, q')) :
    q'.items = q.accept x q.items := by
  unfold push at h
  unfold accept
  split at h
  next hclosed =>
    cases h
    rw [if_pos hclosed]
  next hopen =>
    rw [if_neg hopen]
    split at h
    next hfull =>
      rw [if_pos hfull]
      split at h
      next hpolicy =>
        cases h
        simp [append, hpolicy]
      next hpolicy =>
        cases h
        simp [hpolicy]
      next => cases h
    next hfull =>
      cases h
      rw [if_neg hfull]
      rfl

theorem map_accept (f : β → α) (x : β) (items : List β) (q : BoundedQueue α) :
    (q.accept x items).map f = q.accept (f x) (items.map f) := by
  unfold accept
  repeat' split
  all_goals simp [List.map_tail]

theorem accept_sublist (x : β) (items : List β) (q : BoundedQueue α) :
    (q.accept x items).Sublist (items ++ [x]) := by
  unfold accept
  split
  · exact List.sublist_append_left _ _
  · split
    · split
      · exact List.Sublist.append (List.tail_sublist _) (List.Sublist.refl _)
      · exact List.sublist_append_left _ _
    · exact List.Sublist.refl _

/-- An open queue that blocks takes what does not wait. -/
theorem accept_of_block {x : α} {y : β} {ok : Bool} (hpolicy : q.policy = .block)
    (hopen : q.closed = false) (h : q.push x = some (ok, q')) (items : List β) :
    q.accept y items = items ++ [y] := by
  have hroom : ¬q.full = true := by
    intro hfull
    rw [push_eq_none_iff.mpr ⟨hopen, of_decide_eq_true hfull, hpolicy⟩] at h
    cases h
  rw [accept, if_neg (by simp [hopen]), if_neg hroom]

end BoundedQueue

/-! ## The bus as mailboxes -/

/-- What a worker's handler is publishing. -/
def WorkerPc.inFlight : WorkerPc → Option (Event × List Nat)
  | .handling (some pub) _ => some (pub.event, pub.targets)
  | _ => none

namespace EventBus

variable {κ ι ε : Type} {comps : Components κ ι ε} {b b' : EventBus κ} {log : BusLog}

def inFlight (b : EventBus κ) : Origin → Option (Event × List Nat)
  | .thread p => (b.publishers p).map fun pub => (pub.event, pub.targets)
  | .worker i => b.subs[i]?.bind fun sub => sub.worker.inFlight

def mail (b : EventBus κ) (log : BusLog) : Mail Origin Nat Event where
  inFlight := b.inFlight
  queued := log.queued
  handed := log.handled
  sent := log.sent

theorem inFlight_publishers (p : Nat) (v : Option Publishing) (b : EventBus κ) (n : Nat) :
    { b with published := n, publishers := Function.update b.publishers p v }.inFlight =
      Function.update b.inFlight (.thread p) (v.map fun pub => (pub.event, pub.targets)) := by
  funext o
  cases o with
  | thread p' =>
      by_cases hp : p' = p
      · subst hp
        simp [inFlight]
      · rw [Function.update_of_ne (fun h => hp (Origin.thread.inj h))]
        simp [inFlight, hp]
  | worker i =>
      rw [Function.update_of_ne Origin.noConfusion]
      rfl

theorem inFlight_setSub {i : Nat} {sub new : Subscription} (hsub : b.subs[i]? = some sub) :
    (b.setSub i new).inFlight =
      Function.update b.inFlight (.worker i) new.worker.inFlight := by
  have hlt : i < b.subs.length := (List.getElem?_eq_some_iff.mp hsub).choose
  funext o
  cases o with
  | thread p =>
      rw [Function.update_of_ne Origin.noConfusion]
      rfl
  | worker j =>
      by_cases hj : j = i
      · subst hj
        simp [inFlight, setSub, hlt]
      · rw [Function.update_of_ne (fun h => hj (Origin.worker.inj h))]
        simp [inFlight, setSub, List.getElem?_set_ne (Ne.symm hj)]

/-- A worker that does not enter or leave a publish. -/
theorem inFlight_setSub_of_same {i : Nat} {sub new : Subscription} (hsub : b.subs[i]? = some sub)
    (hsame : new.worker.inFlight = sub.worker.inFlight) :
    (b.setSub i new).inFlight = b.inFlight := by
  rw [inFlight_setSub hsub, hsame]
  have hold : b.inFlight (.worker i) = sub.worker.inFlight := by simp [inFlight, hsub]
  rw [← hold, Function.update_eq_self]

theorem pushTo_eq_some {j : Nat} {e : Event} (h : b.pushTo j e = some b') :
    ∃ sub ok q, b.subs[j]? = some sub ∧ sub.queue.push e = some (ok, q) ∧
      b' = b.setSub j { sub with queue := q } := by
  unfold pushTo at h
  split at h
  · cases h
  next sub hsub =>
    obtain ⟨⟨ok, q⟩, hpush, rfl⟩ := Option.map_eq_some_iff.mp h
    exact ⟨sub, ok, q, hsub, hpush, rfl⟩

theorem nodup_snapshot (e : Event) (b : EventBus κ) : (b.snapshot e).Nodup :=
  List.nodup_range.filter _

/-- The tagged queues are the queues, and a subscription that is still to come has got
nothing. -/
def Mirrors (b : EventBus κ) (log : BusLog) : Prop :=
  ∀ i, (log.queued i).map Prod.snd = (b.subs[i]?.map fun sub => sub.queue.items).getD []

theorem Mirrors.of_some {i : Nat} {sub : Subscription} (h : b.Mirrors log)
    (hsub : b.subs[i]? = some sub) : (log.queued i).map Prod.snd = sub.queue.items := by
  rw [h i, hsub]
  rfl

/-- The queue of one subscription changes, and its tags with it. -/
theorem Mirrors.setSub {i : Nat} {sub new : Subscription} {tags : List (Origin × Event)}
    {handled : Nat → List (Origin × Event)} {sent : List (Sending Origin Nat Event)}
    (h : b.Mirrors log) (hsub : b.subs[i]? = some sub)
    (htags : tags.map Prod.snd = new.queue.items) :
    (b.setSub i new).Mirrors
      { queued := Function.update log.queued i tags, handled := handled, sent := sent } := by
  have hlt : i < b.subs.length := (List.getElem?_eq_some_iff.mp hsub).choose
  intro j
  by_cases hj : j = i
  · subst hj
    simp [EventBus.setSub, hlt, htags]
  · simp [EventBus.setSub, List.getElem?_set_ne (Ne.symm hj), Function.update_of_ne hj, h j]

theorem Mirrors.setSub_of_same {i : Nat} {sub new : Subscription} (h : b.Mirrors log)
    (hsub : b.subs[i]? = some sub) (hsame : new.queue.items = sub.queue.items) :
    (b.setSub i new).Mirrors log := by
  have hset : (b.setSub i new).Mirrors
      { log with queued := Function.update log.queued i (log.queued i) } :=
    h.setSub hsub ((h.of_some hsub).trans hsame.symm)
  rwa [Function.update_eq_self] at hset

/-- The queue of the subscription blocks and is open, if the subscription exists. -/
def TakesAll (b : EventBus κ) (i : Nat) : Prop :=
  ∀ sub ∈ b.subs[i]?, sub.queue.policy = .block ∧ sub.queue.closed = false

/-- What a step of the bus is for the mailboxes. -/
structure Carries (b : EventBus κ) (log : BusLog) (b' : EventBus κ) (log' : BusLog) : Prop where
  step : (b.mail log).Step (b'.mail log')
  mirrors : b'.Mirrors log'
  keeps : ∀ i, b'.TakesAll i → b.TakesAll i ∧ Mail.KeepsAll i (b.mail log) (b'.mail log')

theorem takesAll_setSub {i j : Nat} {sub new : Subscription} (hsub : b.subs[i]? = some sub)
    (hpolicy : new.queue.policy = sub.queue.policy)
    (hclosed : new.queue.closed = false → sub.queue.closed = false)
    (h : (b.setSub i new).TakesAll j) : b.TakesAll j := by
  have hlt : i < b.subs.length := (List.getElem?_eq_some_iff.mp hsub).choose
  intro x hx
  by_cases hj : j = i
  · subst hj
    rw [hsub] at hx
    rw [← Option.some.inj hx]
    obtain ⟨hblock, hopen⟩ := h new (by simp [EventBus.setSub, hlt])
    exact ⟨hpolicy.symm.trans hblock, hclosed hopen⟩
  · exact h x (by rwa [EventBus.setSub, List.getElem?_set_ne (Ne.symm hj)])

/-- Nothing of a step is for the mailboxes. -/
theorem Carries.quiet (hm : b'.Mirrors log) (hflight : b'.inFlight = b.inFlight)
    (htakes : ∀ i, b'.TakesAll i → b.TakesAll i) : Carries b log b' log where
  step := by
    rw [show b'.mail log = b.mail log by rw [mail, hflight]; rfl]
    exact .idle
  mirrors := hm
  keeps i h := ⟨htakes i h, Mail.keepsAll_of_same hflight i⟩

theorem Carries.worker {i : Nat} {sub new : Subscription} (hm : b.Mirrors log)
    (hsub : b.subs[i]? = some sub) (hworker : new.worker.inFlight = sub.worker.inFlight)
    (hitems : new.queue.items = sub.queue.items) (hpolicy : new.queue.policy = sub.queue.policy)
    (hclosed : new.queue.closed = false → sub.queue.closed = false) :
    Carries b log (b.setSub i new) log :=
  .quiet (hm.setSub_of_same hsub hitems) (inFlight_setSub_of_same hsub hworker)
    fun _ => takesAll_setSub hsub hpolicy hclosed

/-- A publish begins. -/
theorem Carries.send {o : Origin} {e : Event} (hm : b'.Mirrors log)
    (hup : ¬b.shuttingDown = true) (hfree : b.inFlight o = none)
    (hflight : b'.inFlight = Function.update b.inFlight o (some (e, b.snapshot e)))
    (htakes : ∀ i, b'.TakesAll i → b.TakesAll i) :
    Carries b log b' (log.send o e b) where
  step := by
    have hmail : b'.mail (log.send o e b) =
        { b.mail log with
          inFlight := Function.update (b.mail log).inFlight o (some (e, b.snapshot e))
          sent := (b.mail log).sent ++ [⟨o, e, b.snapshot e⟩] } := by
      rw [mail, hflight, BusLog.send, if_neg hup]
      rfl
    rw [hmail]
    exact .send o e _ hfree (nodup_snapshot e b)
  mirrors := by
    rw [BusLog.send, if_neg hup]
    exact hm
  keeps i h := by
    refine ⟨htakes i h, Mail.keepsAll_of_update hflight fun e' rest hold => ?_⟩
    rw [show (b.mail log).inFlight o = none from hfree] at hold
    cases hold

/-- A publish ends. -/
theorem Carries.close {o : Origin} {e : Event} (hm : b'.Mirrors log)
    (hdone : b.inFlight o = some (e, []))
    (hflight : b'.inFlight = Function.update b.inFlight o none)
    (htakes : ∀ i, b'.TakesAll i → b.TakesAll i) : Carries b log b' log where
  step := by
    have hmail : b'.mail log =
        { b.mail log with inFlight := Function.update (b.mail log).inFlight o none } := by
      rw [mail, hflight]
      rfl
    rw [hmail]
    exact .close o e hdone
  mirrors := hm
  keeps i h := ⟨htakes i h, Mail.keepsAll_of_update hflight fun _ _ _ hnone => by cases hnone⟩

/-- An event is pushed to the next queue; `b₁` is the bus with the rest of the targets. -/
theorem Carries.post {o : Origin} {e : Event} {j : Nat} {rest : List Nat} {b₁ : EventBus κ}
    (h : b₁.pushTo j e = some b') (hm₁ : b₁.Mirrors log)
    (hnext : b.inFlight o = some (e, j :: rest))
    (hflight : b₁.inFlight = Function.update b.inFlight o (some (e, rest)))
    (hqueue : b₁.subs[j]?.map Subscription.queue = b.subs[j]?.map Subscription.queue)
    (htakes : ∀ i, b₁.TakesAll i → b.TakesAll i) : Carries b log b' (log.post o e j b) := by
  obtain ⟨sub₁, ok, q, hsub₁, hpush, rfl⟩ := pushTo_eq_some h
  rw [hsub₁, Option.map_some] at hqueue
  obtain ⟨sub, hsub, hsame⟩ := Option.map_eq_some_iff.mp hqueue.symm
  have hlog : log.post o e j b =
      { log with
        queued := Function.update log.queued j (sub₁.queue.accept (o, e) (log.queued j)) } := by
    rw [BusLog.post, hsub, ← hsame]
  have hkept := BoundedQueue.push_capacity hpush
  have hflight' : (b₁.setSub j { sub₁ with queue := q }).inFlight =
      Function.update b.inFlight o (some (e, rest)) := by
    rw [← hflight]
    exact inFlight_setSub_of_same hsub₁ rfl
  rw [hlog]
  refine ⟨?_, ?_, fun i hi => ?_⟩
  · have hmail : (b₁.setSub j { sub₁ with queue := q }).mail
        { log with
          queued := Function.update log.queued j (sub₁.queue.accept (o, e) (log.queued j)) } =
        { b.mail log with
          inFlight := Function.update (b.mail log).inFlight o (some (e, rest))
          queued := Function.update (b.mail log).queued j
            (sub₁.queue.accept (o, e) (log.queued j)) } := by
      rw [mail, hflight']
      rfl
    rw [hmail]
    exact .post o e j rest _ hnext (BoundedQueue.accept_sublist _ _ _)
  · refine hm₁.setSub hsub₁ ?_
    rw [BoundedQueue.map_accept, hm₁.of_some hsub₁]
    exact (BoundedQueue.items_push hpush).symm
  · have hi₁ : b₁.TakesAll i :=
      takesAll_setSub hsub₁ hkept.2.1 (fun hopen => hkept.2.2.symm.trans hopen) hi
    refine ⟨htakes i hi₁, Mail.keepsAll_of_update hflight' fun e' rest' hold hnew => ?_⟩
    rw [show (b.mail log).inFlight o = _ from hnext] at hold
    obtain ⟨rfl, hrest⟩ := Prod.mk.inj (Option.some.inj hold)
    obtain ⟨rfl, -⟩ := List.cons.inj hrest
    obtain ⟨hpolicy, hopen⟩ := hi₁ sub₁ hsub₁
    show Function.update log.queued _ _ _ = _
    rw [Function.update_self, BoundedQueue.accept_of_block hpolicy hopen hpush]
    rfl

/-! ## Every step of the bus -/

theorem Carries.pop {i : Nat} {sub : Subscription} {e : Event} {q : BoundedQueue Event}
    {pc : WorkerPc} {components : κ} (hm : b.Mirrors log) (hsub : b.subs[i]? = some sub)
    (hidle : sub.worker.inFlight = none) (hpc : pc.inFlight = none)
    (hpop : sub.queue.pop = some (some e, q)) :
    Carries b log { b.setSub i { sub with queue := q, worker := pc } with components := components }
      (log.hand i) := by
  rcases BoundedQueue.pop_eq_some hpop with ⟨x, -, hitems, hq⟩ | ⟨hnone, -⟩
  case inr => cases hnone
  have hflight : ({ b.setSub i { sub with queue := q, worker := pc } with
      components := components } : EventBus κ).inFlight = b.inFlight := by
    have hset : (b.setSub i { sub with queue := q, worker := pc }).inFlight = b.inFlight :=
      inFlight_setSub_of_same hsub (hpc.trans hidle.symm)
    rw [← hset]
    rfl
  have htags := hm.of_some hsub
  rw [hitems] at htags
  obtain ⟨post, rest, htag, -, hrest⟩ := List.map_eq_cons_iff.mp htags
  have hlog : log.hand i =
      { log with
        queued := Function.update log.queued i rest
        handled := Function.update log.handled i (log.handled i ++ [post]) } := by
    rw [BusLog.hand, htag]
  have hback : ∀ j, (b.setSub i { sub with queue := q, worker := pc }).TakesAll j →
      b.TakesAll j := by
    refine fun j => takesAll_setSub hsub ?_ ?_
    · rw [hq]
    · rw [hq]
      exact id
  have hm' : (b.setSub i { sub with queue := q, worker := pc }).Mirrors
      { log with
        queued := Function.update log.queued i rest
        handled := Function.update log.handled i (log.handled i ++ [post]) } :=
    hm.setSub hsub hrest
  rw [hlog]
  refine ⟨?_, hm', fun j hj => ⟨hback j hj, Mail.keepsAll_of_same hflight j⟩⟩
  have hstep : (b.mail log).Step
      { b.mail log with
        queued := Function.update log.queued i rest
        handed := Function.update log.handled i (log.handled i ++ [post]) } :=
    .hand i post rest htag
  rw [mail, mail, hflight]
  exact hstep

theorem getElem?_beyond {α : Type} (l : List α) (x : α) {i : Nat} (h : l.length < i) :
    (l ++ [x])[i]? = none := by
  refine List.getElem?_eq_none ?_
  rw [List.length_append, List.length_singleton]
  exact h

/-- Whatever the threads do next, the mailboxes move as they may. -/
theorem step_carries {a : BusAction ι ε} (hm : b.Mirrors log) (h : b.step comps a = some b') :
    Carries b log b' (log.note b a) := by
  cases busStep h with
  | subscribe target capacity policy =>
      refine .quiet (fun i => ?_) ?_ fun i hi sub hsub => ?_
      · rw [hm i]
        rcases Nat.lt_trichotomy i b.subs.length with hlt | rfl | hgt
        · rw [List.getElem?_append_left hlt]
        · simp
        · rw [List.getElem?_eq_none (Nat.le_of_lt hgt), getElem?_beyond _ _ hgt]
      · funext o
        cases o with
        | thread p => rfl
        | worker i =>
            rcases Nat.lt_trichotomy i b.subs.length with hlt | rfl | hgt
            · simp [inFlight, List.getElem?_append_left hlt]
            · simp [inFlight, WorkerPc.inFlight]
            · simp only [inFlight, List.getElem?_eq_none (Nat.le_of_lt hgt), getElem?_beyond _ _ hgt]
      · have hlt : i < b.subs.length := (List.getElem?_eq_some_iff.mp hsub).choose
        exact hi sub (by rwa [List.getElem?_append_left hlt])
  | refused p e hp hdown =>
      rw [BusLog.note, BusLog.send, if_pos hdown]
      exact .quiet hm rfl fun _ => id
  | publish p e hp hup =>
      exact .send hm hup (by simp [inFlight, hp])
        (inFlight_publishers p (some ⟨e, b.snapshot e⟩) b _) fun _ => id
  | delivered p e hp =>
      rw [BusLog.note, hp]
      exact .close (e := e) hm (by simp [inFlight, hp]) (inFlight_publishers p none b _)
        fun _ => id
  | deliver p e j rest _ hp hpush =>
      rw [BusLog.note, hp]
      exact .post hpush hm (by simp [inFlight, hp])
        (inFlight_publishers p (some ⟨e, rest⟩) b _) rfl fun _ => id
  | testRunning i sub hsub hloop =>
      refine .worker hm hsub ?_ rfl rfl id
      rw [hloop]
      dsimp only
      split <;> rfl
  | exit i input sub q hsub hpopping hpop =>
      rcases BoundedQueue.pop_eq_some hpop with ⟨x, hsome, -⟩ | ⟨-, hitems, -, rfl⟩
      · cases hsome
      · have hnone : log.queued i = [] := by
          have htags := hm.of_some hsub
          rw [hitems] at htags
          exact List.map_eq_nil_iff.mp htags
        rw [BusLog.note, BusLog.hand, hnone]
        exact .worker hm hsub (by rw [hpopping]; rfl) rfl rfl id
  | handle i input sub e q hsub hpopping hpop =>
      exact .pop hm hsub (by rw [hpopping]; rfl) rfl hpop
  | workerRefused i sub e todo hsub hworker hdown =>
      rw [BusLog.note, hsub, Option.map_some, hworker]
      dsimp only
      rw [BusLog.send, if_pos hdown]
      exact .worker hm hsub (by rw [hworker]; rfl) rfl rfl id
  | workerPublish i sub e todo hsub hworker hup =>
      rw [BusLog.note, hsub, Option.map_some, hworker]
      refine .send ?_ hup ?_ (inFlight_setSub hsub) fun _ => takesAll_setSub hsub rfl id
      · exact hm.setSub_of_same hsub rfl
      · simp [inFlight, hsub, hworker, WorkerPc.inFlight]
  | workerDelivered i sub e todo hsub hworker =>
      rw [BusLog.note, hsub, Option.map_some, hworker]
      refine .close (e := e) ?_ ?_ (inFlight_setSub hsub) fun _ => takesAll_setSub hsub rfl id
      · exact hm.setSub_of_same hsub rfl
      · simp [inFlight, hsub, hworker, WorkerPc.inFlight]
  | workerDeliver i sub e j rest todo _ hsub hworker hpush =>
      rw [BusLog.note, hsub, Option.map_some, hworker]
      refine .post hpush (hm.setSub_of_same hsub rfl) ?_ (inFlight_setSub hsub) ?_
        fun _ => takesAll_setSub hsub rfl id
      · simp [inFlight, hsub, hworker, WorkerPc.inFlight]
      · have hlt : i < b.subs.length := (List.getElem?_eq_some_iff.mp hsub).choose
        by_cases hij : j = i
        · subst hij
          rw [setWorker, setSub, List.getElem?_set_self hlt, hsub]
          rfl
        · simp [setWorker, setSub, List.getElem?_set_ne (Ne.symm hij)]
  | handlerReturns i sub hsub hworker => exact .worker hm hsub (by rw [hworker]; rfl) rfl rfl id
  | stop i sub hsub =>
      refine .worker hm hsub ?_ ?_ ?_ ?_ <;> unfold Subscription.requestStop <;> split
      · rfl
      · rfl
      · rfl
      · rfl
      · rfl
      · rfl
      · intro hopen
        cases hopen
      · exact id
  | shutdown => exact .quiet hm rfl fun _ => id
  | component e components henv => exact .quiet hm rfl fun _ => id

/-! ## Every run -/

/-- What a subscription has handled of a publisher, what is in its queue and what is being
pushed to it was published for it in this order, and is all of that while its queue blocks
and is open. -/
structure DeliversInOrder (b : EventBus κ) (log : BusLog) : Prop where
  queued : ∀ i sub, b.subs[i]? = some sub → (log.queued i).map Prod.snd = sub.queue.items
  handled : ∀ o i, (fromSender o (log.handled i)).Sublist ((b.mail log).addressed o i)
  ordered : ∀ o i, ((b.mail log).received o i).Sublist ((b.mail log).addressed o i)
  whole : ∀ o i, b.TakesAll i → (b.mail log).received o i = (b.mail log).addressed o i

/-- The mailboxes are in order, and whole where everything was taken. -/
structure DeliveryInv (b : EventBus κ) (log : BusLog) : Prop where
  mirrors : b.Mirrors log
  inOrder : (b.mail log).InOrder
  whole : ∀ i, b.TakesAll i → (b.mail log).Whole i

theorem deliveryInv_new (components : κ) :
    DeliveryInv ({ components := components } : EventBus κ) {} where
  mirrors _ := rfl
  inOrder :=
    { nodup := fun o e targets h => by
        cases o <;> cases h
      sublist := fun o i => by
        cases o <;> exact .refl _ }
  whole i _ o := by
    cases o <;> rfl

theorem DeliveryInv.step {a : BusAction ι ε} (hi : DeliveryInv b log)
    (h : b.step comps a = some b') : DeliveryInv b' (log.note b a) := by
  have hcarries := step_carries hi.mirrors h
  refine ⟨hcarries.mirrors, hcarries.step.inOrder hi.inOrder, fun i htakes => ?_⟩
  obtain ⟨hbefore, hkeeps⟩ := hcarries.keeps i htakes
  exact hcarries.step.whole hi.inOrder hkeeps (hi.whole i hbefore)

/-- Handlers that publish nothing. -/
def silent : Components Unit Unit Unit where
  react _ _ _ s := (s, [])
  env _ s := some s

/-- Two threads publish to a queue that throws the oldest away and to one that blocks. -/
def twoPublishers : List (BusAction Unit Unit) :=
  [.subscribe none 1 .dropOldest, .subscribe none 4 .block,
    .publish 0 (.speechStarted { turn := 1 }), .deliver 0,
    .publish 1 (.speechStarted { turn := 2 }), .deliver 1, .deliver 1, .deliver 1,
    .deliver 0, .deliver 0, .publish 1 (.speechEnded { turn := 2 }), .testRunning 0, .pop 0 (),
    .deliver 1, .testRunning 1, .pop 1 ()]

end EventBus

end Acva.Bus

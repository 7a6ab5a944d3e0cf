import Acva.Core.Ledger
import Acva.Core.Runs
import Acva.Event.BoundedQueue

/-! # What the bounded queue is for

Every call locks the queue once, so what several threads do to it is one list of
operations. A producer that waits is not in the list until it gets on. Beside the
queue stands what its callers have seen: the items that were taken in, handed out
and evicted, and the pushes that were turned away.
-/

namespace Acva.Bus

open Acva.Ledger Acva.Runs

inductive QueueOp (α : Type)
  | push (x : α)
  | pop
  | popUntil (expired : Bool)
  | tryPop
  | close
deriving DecidableEq, Repr

/-- A full queue rejects a push, a closed one refuses it. -/
structure QueueTrace (α : Type) where
  accepted : List α := []
  popped : List α := []
  evicted : List α := []
  rejected : Nat := 0
  refused : Nat := 0
deriving DecidableEq, Repr

namespace QueueTrace

variable {α : Type}

/-- An item that is taken in where the queue drops the oldest evicts the first one of a
full queue. -/
def notePush (x : α) (q : BoundedQueue α) (t : QueueTrace α) : QueueTrace α :=
  match q.push x with
  | some (true, _) =>
      { t with
        accepted := t.accepted ++ [x]
        evicted := if q.full = true then t.evicted ++ q.items.head?.toList else t.evicted }
  | some (false, _) =>
      if q.closed = true then { t with refused := t.refused + 1 }
      else { t with rejected := t.rejected + 1 }
  | none => t

def notePop (r : Option α) (t : QueueTrace α) : QueueTrace α :=
  { t with popped := t.popped ++ r.toList }

/-- What was taken in and not evicted was handed out, in order, and nothing else was. -/
def AllServed (t : QueueTrace α) : Prop :=
  ∃ l : List (Entry α), arrivals l = t.accepted ∧ withFate .served l = t.popped ∧
    withFate .discarded l = t.evicted ∧ withFate .waiting l = []

end QueueTrace

namespace BoundedQueue

variable {α : Type}

def step (q : BoundedQueue α) : QueueOp α → Option (BoundedQueue α)
  | .push x => (q.push x).map Prod.snd
  | .pop => q.pop.map Prod.snd
  | .popUntil expired => (q.popUntil expired).map Prod.snd
  | .tryPop => some q.tryPop.2
  | .close => some q.close

def note (t : QueueTrace α) (q : BoundedQueue α) : QueueOp α → QueueTrace α
  | .push x => t.notePush x q
  | .pop => t.notePop (q.pop.bind Prod.fst)
  | .popUntil expired => t.notePop ((q.popUntil expired).bind Prod.fst)
  | .tryPop => t.notePop q.tryPop.1
  | .close => t

/-- The items that came in, each with its fate so far: handed out, evicted, or still in the
queue, and always the earlier ones first. -/
structure Ledgered (q : BoundedQueue α) (t : QueueTrace α) (l : List (Entry α)) : Prop where
  accepted : arrivals l = t.accepted
  popped : withFate .served l = t.popped
  evicted : withFate .discarded l = t.evicted
  queued : withFate .waiting l = q.items
  fifo : InOrder .served l
  oldest : InOrder .discarded l

/-- What the counters count, which the policy decides. -/
structure Counted (q : BoundedQueue α) (t : QueueTrace α) : Prop where
  bounded : q.items.length ≤ q.capacity
  pushes : q.pushes = t.accepted.length
  pops : q.pops = t.popped.length
  drops : q.drops = match q.policy with
    | .dropOldest => t.evicted.length
    | .dropNewest => t.rejected
    | .block => 0
  evictions : q.policy ≠ .dropOldest → t.evicted = []
  rejections : q.policy ≠ .dropNewest → t.rejected = 0

/-! ## One step -/

/-- What an operation does to the queue and to what the callers have seen. -/
inductive OpStep (q : BoundedQueue α) (t : QueueTrace α) :
    QueueOp α → BoundedQueue α → QueueTrace α → Prop
  | accept (x : α) (hopen : q.closed = false) (hroom : q.items.length < q.capacity) :
      OpStep q t (.push x) (q.append x) { t with accepted := t.accepted ++ [x] }
  | evict (x : α) (hopen : q.closed = false) (hfull : q.capacity ≤ q.items.length)
      (hpolicy : q.policy = .dropOldest) :
      OpStep q t (.push x) (append x { q with items := q.items.tail, drops := q.drops + 1 })
        { t with
          accepted := t.accepted ++ [x]
          evicted := t.evicted ++ q.items.head?.toList }
  | reject (x : α) (hopen : q.closed = false) (hfull : q.capacity ≤ q.items.length)
      (hpolicy : q.policy = .dropNewest) :
      OpStep q t (.push x) { q with drops := q.drops + 1 } { t with rejected := t.rejected + 1 }
  | refuse (x : α) (hclosed : q.closed = true) :
      OpStep q t (.push x) q { t with refused := t.refused + 1 }
  | take (op : QueueOp α) (x : α) (rest : List α) (hitems : q.items = x :: rest) :
      OpStep q t op { q with items := rest, pops := q.pops + 1 }
        { t with popped := t.popped ++ [x] }
  | nothing (op : QueueOp α) (hitems : q.items = []) : OpStep q t op q t
  | close : OpStep q t .close q.close t

variable {q q' : BoundedQueue α} {t : QueueTrace α}

theorem push_opStep {x : α} (h : q.step (.push x) = some q') :
    OpStep q t (.push x) q' (t.notePush x q) := by
  obtain ⟨⟨ok, r⟩, hpush, rfl⟩ := Option.map_eq_some_iff.mp h
  simp only [QueueTrace.notePush, hpush]
  unfold push at hpush
  split at hpush
  next hclosed =>
    cases hpush
    simp only [hclosed, if_true]
    exact .refuse x hclosed
  next hopen =>
    have hopen' : q.closed = false := Bool.eq_false_iff.mpr hopen
    split at hpush
    next hfull =>
      have hlength : q.capacity ≤ q.items.length := by simpa [full] using hfull
      split at hpush
      next hpolicy =>
        cases hpush
        simp only [hfull, if_true]
        exact .evict x hopen' hlength hpolicy
      next hpolicy =>
        cases hpush
        rw [if_neg hopen]
        exact .reject x hopen' hlength hpolicy
      next => cases hpush
    next hroom =>
      cases hpush
      have hlength : q.items.length < q.capacity := by simpa [full] using hroom
      simp only [hroom]
      exact .accept x hopen' hlength

theorem note_pop {r : Option α} {op : QueueOp α} (h : (∃ x, r = some x ∧ q.items = x :: q'.items ∧
      q' = { q with items := q'.items, pops := q.pops + 1 }) ∨
    (r = none ∧ q.items = [] ∧ q' = q)) : OpStep q t op q' (t.notePop r) := by
  rcases h with ⟨x, rfl, hitems, hq'⟩ | ⟨rfl, hitems, rfl⟩
  · rw [hq']
    exact .take op x _ hitems
  · have hsame : t.notePop none = t := by simp [QueueTrace.notePop]
    rw [hsame]
    exact .nothing op hitems

theorem step_opStep {op : QueueOp α} (h : q.step op = some q') :
    OpStep q t op q' (note t q op) := by
  cases op with
  | push x => exact push_opStep h
  | close =>
      cases h
      exact .close
  | pop =>
      obtain ⟨⟨r, q₁⟩, hpop, rfl⟩ := Option.map_eq_some_iff.mp h
      simp only [note, hpop, Option.bind_some]
      refine note_pop ((pop_eq_some hpop).imp_right ?_)
      exact fun ⟨hr, hitems, _, hq⟩ => ⟨hr, hitems, hq⟩
  | popUntil expired =>
      obtain ⟨⟨r, q₁⟩, hpop, rfl⟩ := Option.map_eq_some_iff.mp h
      simp only [note, hpop, Option.bind_some]
      refine note_pop ?_
      unfold popUntil at hpop
      split at hpop
      next x rest hitems =>
        cases hpop
        exact .inl ⟨x, rfl, hitems, rfl⟩
      next hitems =>
        split at hpop
        · cases hpop
          exact .inr ⟨rfl, hitems, rfl⟩
        · cases hpop
  | tryPop =>
      cases h
      refine note_pop ?_
      unfold tryPop
      split
      next x rest hitems => exact .inl ⟨x, rfl, hitems, rfl⟩
      next hitems => exact .inr ⟨rfl, hitems, rfl⟩

/-! ## The ledger -/

theorem Ledgered.step {l : List (Entry α)} (hl : Ledgered q t l) {op : QueueOp α}
    {t' : QueueTrace α} (h : OpStep q t op q' t') : ∃ l', Ledgered q' t' l' := by
  obtain ⟨haccepted, hpopped, hevicted, hqueued, hfifo, holdest⟩ := hl
  cases h with
  | accept x _ _ =>
      refine ⟨arrive x l, ?_, ?_, ?_, ?_, hfifo.arrive (by decide) x,
        holdest.arrive (by decide) x⟩
      · rw [arrivals_arrive, haccepted]
      · rw [withFate_arrive (by decide), hpopped]
      · rw [withFate_arrive (by decide), hevicted]
      · rw [waiting_arrive, hqueued]
        rfl
  | evict x _ _ _ =>
      refine ⟨arrive x (settleFirst .discarded l), ?_, ?_, ?_, ?_,
        (hfifo.settleFirst (by decide)).arrive (by decide) x,
        (holdest.settleFirst (by decide)).arrive (by decide) x⟩
      · rw [arrivals_arrive, arrivals_settleFirst, haccepted]
      · rw [withFate_arrive (by decide), withFate_settleFirst (by decide) (by decide), hpopped]
      · rw [withFate_arrive (by decide), withFate_settleFirst_self holdest (by decide), hevicted,
          hqueued]
      · rw [waiting_arrive, waiting_settleFirst (by decide), hqueued]
        rfl
  | reject x _ _ _ => exact ⟨l, haccepted, hpopped, hevicted, hqueued, hfifo, holdest⟩
  | refuse x _ => exact ⟨l, haccepted, hpopped, hevicted, hqueued, hfifo, holdest⟩
  | take op x rest hitems =>
      have hwaiting : withFate .waiting l = x :: rest := hqueued.trans hitems
      refine ⟨settleFirst .served l, ?_, ?_, ?_, ?_, hfifo.settleFirst (by decide),
        holdest.settleFirst (by decide)⟩
      · rw [arrivals_settleFirst, haccepted]
      · rw [withFate_settleFirst_self hfifo (by decide), hpopped, hwaiting]
        rfl
      · rw [withFate_settleFirst (by decide) (by decide), hevicted]
      · rw [waiting_settleFirst (by decide), hwaiting]
        rfl
  | nothing op _ => exact ⟨l, haccepted, hpopped, hevicted, hqueued, hfifo, holdest⟩
  | close => exact ⟨l, haccepted, hpopped, hevicted, hqueued, hfifo, holdest⟩

/-! ## The counters -/

theorem Counted.step (hc : Counted q t) (hcap : 1 ≤ q.capacity) {op : QueueOp α}
    {t' : QueueTrace α} (h : OpStep q t op q' t') : Counted q' t' := by
  obtain ⟨hbounded, hpushes, hpops, hdrops, hevictions, hrejections⟩ := hc
  cases h with
  | accept x _ hroom =>
      refine ⟨?_, ?_, hpops, hdrops, hevictions, hrejections⟩
      · show (q.items ++ [x]).length ≤ q.capacity
        rw [List.length_append, List.length_singleton]
        omega
      · show q.pushes + 1 = (t.accepted ++ [x]).length
        rw [List.length_append, List.length_singleton, hpushes]
  | evict x _ hfull hpolicy =>
      have hsome : q.items.head?.toList.length = 1 := by
        cases hitems : q.items with
        | nil =>
            rw [hitems, List.length_nil] at hfull
            omega
        | cons y rest => rfl
      refine ⟨?_, ?_, hpops, ?_, fun hother => absurd hpolicy hother, hrejections⟩
      · show (q.items.tail ++ [x]).length ≤ q.capacity
        rw [List.length_append, List.length_singleton, List.length_tail]
        omega
      · show q.pushes + 1 = (t.accepted ++ [x]).length
        rw [List.length_append, List.length_singleton, hpushes]
      · rw [hpolicy] at hdrops
        show q.drops + 1 = match q.policy with
          | .dropOldest => (t.evicted ++ q.items.head?.toList).length
          | .dropNewest => t.rejected
          | .block => 0
        rw [hpolicy, hdrops]
        show t.evicted.length + 1 = (t.evicted ++ q.items.head?.toList).length
        rw [List.length_append, hsome]
  | reject x _ _ hpolicy =>
      refine ⟨hbounded, hpushes, hpops, ?_, hevictions, fun hother => absurd hpolicy hother⟩
      rw [hpolicy] at hdrops
      show q.drops + 1 = match q.policy with
        | .dropOldest => t.evicted.length
        | .dropNewest => t.rejected + 1
        | .block => 0
      rw [hpolicy, hdrops]
  | refuse x _ => exact ⟨hbounded, hpushes, hpops, hdrops, hevictions, hrejections⟩
  | take op x rest hitems =>
      refine ⟨?_, hpushes, ?_, hdrops, hevictions, hrejections⟩
      · rw [hitems, List.length_cons] at hbounded
        exact Nat.le_of_succ_le hbounded
      · show q.pops + 1 = (t.popped ++ [x]).length
        rw [List.length_append, List.length_singleton, hpops]
  | nothing op _ => exact ⟨hbounded, hpushes, hpops, hdrops, hevictions, hrejections⟩
  | close => exact ⟨hbounded, hpushes, hpops, hdrops, hevictions, hrejections⟩

theorem OpStep.kind {op : QueueOp α} {t' : QueueTrace α} (h : OpStep q t op q' t') :
    q'.capacity = q.capacity ∧ q'.policy = q.policy := by
  cases h <;> exact ⟨rfl, rfl⟩

/-! ## A closed queue -/

/-- What a queue `q` that is closed has become: it takes nothing in, gives its items away in
their order, and an attempt to pop finds the first one left, or nothing. -/
structure DrainsTo (q : BoundedQueue α) (t : QueueTrace α) (q' : BoundedQueue α)
    (t' : QueueTrace α) : Prop where
  closed : q'.closed = true
  accepted : t'.accepted = t.accepted
  evicted : t'.evicted = t.evicted
  popped : ∃ taken, t'.popped = t.popped ++ taken ∧ q.items = taken ++ q'.items
  pop : q'.pop.map Prod.fst = some q'.items.head?
  popUntil : ∀ expired, (q'.popUntil expired).map Prod.fst = some q'.items.head?
  tryPop : q'.tryPop.1 = q'.items.head?

theorem popped_of_closed (hclosed : q.closed = true) :
    q.pop.map Prod.fst = some q.items.head? ∧
      (∀ expired, (q.popUntil expired).map Prod.fst = some q.items.head?) ∧
      q.tryPop.1 = q.items.head? := by
  cases hitems : q.items with
  | nil => simp [BoundedQueue.pop, BoundedQueue.popUntil, BoundedQueue.tryPop, hitems, hclosed]
  | cons x rest => simp [BoundedQueue.pop, BoundedQueue.popUntil, BoundedQueue.tryPop, hitems]

theorem drainsTo_refl (hclosed : q.closed = true) : DrainsTo q t q t := by
  obtain ⟨hpop, hpopUntil, htryPop⟩ := popped_of_closed hclosed
  exact ⟨hclosed, rfl, rfl, ⟨[], (List.append_nil _).symm, rfl⟩, hpop, hpopUntil, htryPop⟩

theorem DrainsTo.step {q₁ q₂ : BoundedQueue α} {t₁ t₂ : QueueTrace α} {op : QueueOp α}
    (hd : DrainsTo q t q₁ t₁) (h : OpStep q₁ t₁ op q₂ t₂) : DrainsTo q t q₂ t₂ := by
  obtain ⟨hclosed, haccepted, hevicted, ⟨taken, hpopped, hitems⟩, -⟩ := hd
  have hkeeps : ∀ q₂ : BoundedQueue α, q₂.closed = true → q₂.items = q₁.items →
      DrainsTo q t q₂ t₁ := by
    intro q₂ hclosed₂ hitems₂
    obtain ⟨hpop, hpopUntil, htryPop⟩ := popped_of_closed hclosed₂
    exact ⟨hclosed₂, haccepted, hevicted, ⟨taken, hpopped, hitems₂ ▸ hitems⟩, hpop, hpopUntil,
      htryPop⟩
  cases h with
  | accept x hopen _ => simp [hclosed] at hopen
  | evict x hopen _ _ => simp [hclosed] at hopen
  | reject x hopen _ _ => simp [hclosed] at hopen
  | refuse x _ =>
      obtain ⟨hpop, hpopUntil, htryPop⟩ := popped_of_closed hclosed
      exact ⟨hclosed, haccepted, hevicted, ⟨taken, hpopped, hitems⟩, hpop, hpopUntil, htryPop⟩
  | take op x rest hfront =>
      obtain ⟨hpop, hpopUntil, htryPop⟩ :=
        popped_of_closed (q := { q₁ with items := rest, pops := q₁.pops + 1 }) hclosed
      refine ⟨hclosed, haccepted, hevicted, ⟨taken ++ [x], ?_, ?_⟩, hpop, hpopUntil, htryPop⟩
      · show t₁.popped ++ [x] = t.popped ++ (taken ++ [x])
        rw [hpopped, List.append_assoc]
      · rw [hitems, hfront, List.append_assoc]
        rfl
  | nothing op _ => exact hkeeps q₁ hclosed rfl
  | close => exact hkeeps q₁.close rfl rfl

/-! ## Runs -/

/-- The queue is a bounded first-in first-out buffer: what was handed out and then what is
left is what came in, in order, less what was evicted; and the counters balance. -/
structure IsBoundedFifo (q : BoundedQueue α) (t : QueueTrace α) : Prop where
  counted : Counted q t
  fifo : ∃ l, Ledgered q t l ∧ t.popped ++ q.items = kept l
  conserved : q.pushes = q.pops + t.evicted.length + q.items.length

/-- A queue that no caller has used yet. -/
def fresh (capacity : Nat) (policy : OverflowPolicy) : BoundedQueue α :=
  { capacity := capacity, policy := policy }

theorem fresh_ledgered (capacity : Nat) (policy : OverflowPolicy) :
    Ledgered (fresh capacity policy : BoundedQueue α) {} [] :=
  ⟨rfl, rfl, rfl, rfl, List.Pairwise.nil, List.Pairwise.nil⟩

theorem fresh_counted (capacity : Nat) (policy : OverflowPolicy) :
    Counted (fresh capacity policy : BoundedQueue α) {} :=
  ⟨Nat.zero_le _, rfl, rfl, by cases policy <;> rfl, fun _ => rfl, fun _ => rfl⟩

theorem run_ledgered {ops : List (QueueOp α)} {l : List (Entry α)} {t' : QueueTrace α}
    (hl : Ledgered q t l) (hrun : run (watch step note) (q, t) ops = some (q', t')) :
    ∃ l', Ledgered q' t' l' := by
  refine run_preserves (fun w => ∃ l, Ledgered w.1 w.2 l) (fun w op w' hw hs => ?_) hrun ⟨l, hl⟩
  obtain ⟨hstep, hnote⟩ := watch_eq_some.mp hs
  obtain ⟨l, hl⟩ := hw
  exact hl.step (hnote ▸ step_opStep hstep)

theorem OpStep.evicted {op : QueueOp α} {t' : QueueTrace α} (h : OpStep q t op q' t')
    (hpolicy : q.policy ≠ .dropOldest) : t'.evicted = t.evicted := by
  cases h with
  | evict x _ _ hother => exact absurd hother hpolicy
  | _ => rfl

/-- Only a queue that drops the oldest evicts. -/
theorem run_evicted {ops : List (QueueOp α)} {t' : QueueTrace α}
    (hpolicy : q.policy ≠ .dropOldest)
    (hrun : run (watch step note) (q, t) ops = some (q', t')) : t'.evicted = t.evicted := by
  refine (run_preserves (fun w => w.1.policy ≠ .dropOldest ∧ w.2.evicted = t.evicted)
    (fun w op w' hw hs => ?_) hrun ⟨hpolicy, rfl⟩).2
  obtain ⟨hstep, hnote⟩ := watch_eq_some.mp hs
  have hop : OpStep w.1 w.2 op w'.1 w'.2 := hnote ▸ step_opStep hstep
  exact ⟨hop.kind.2 ▸ hw.1, (hop.evicted hw.1).trans hw.2⟩

/-- Where nothing was evicted, what was handed out and then what is left is all that came in. -/
theorem Ledgered.popped_append {l : List (Entry α)} (hl : Ledgered q t l)
    (hnone : t.evicted = []) : t.popped ++ q.items = t.accepted := by
  rw [← hl.popped, ← hl.queued, ← kept_eq hl.fifo,
    kept_of_discarded_eq_nil (hl.evicted.trans hnone), hl.accepted]

theorem Ledgered.conserved {l : List (Entry α)} (hl : Ledgered q t l) :
    t.accepted.length = t.popped.length + t.evicted.length + q.items.length := by
  have hlength := length_arrivals l
  rw [hl.accepted, hl.queued, hl.popped, hl.evicted] at hlength
  omega

/-- Nothing that was taken in is missing exactly if nothing is left. -/
theorem Ledgered.allServed_iff {l : List (Entry α)} (hl : Ledgered q t l) :
    t.AllServed ↔ q.items = [] := by
  constructor
  · rintro ⟨l', haccepted, hpopped, hevicted, hwaiting⟩
    have hlength := length_arrivals l'
    rw [haccepted, hpopped, hevicted, hwaiting, List.length_nil] at hlength
    have hconserved := hl.conserved
    exact List.length_eq_zero_iff.mp (by omega)
  · exact fun hempty => ⟨l, hl.accepted, hl.popped, hl.evicted, hl.queued.trans hempty⟩

/-- For every policy and capacity and every sequence of operations the queue is a bounded
first-in first-out buffer, and once it is closed it only drains. -/
theorem run_isBoundedFifo {capacity : Nat} (hcap : 1 ≤ capacity) {policy : OverflowPolicy}
    {ops : List (QueueOp α)}
    (hrun : run (watch step note) (fresh capacity policy, {}) ops = some (q, t)) :
    q.capacity = capacity ∧ q.policy = policy ∧ IsBoundedFifo q t ∧
      (q.closed = true → ∀ ops' q' t', run (watch step note) (q, t) ops' = some (q', t') →
        DrainsTo q t q' t') := by
  have hkept : q.capacity = capacity ∧ q.policy = policy ∧ Counted q t := by
    refine run_preserves
      (fun w => w.1.capacity = capacity ∧ w.1.policy = policy ∧ Counted w.1 w.2)
      (fun w op w' hw hs => ?_) hrun ⟨rfl, rfl, fresh_counted capacity policy⟩
    obtain ⟨hcapacity, hpolicy, hcounted⟩ := hw
    obtain ⟨hstep, hnote⟩ := watch_eq_some.mp hs
    have hop : OpStep w.1 w.2 op w'.1 w'.2 := hnote ▸ step_opStep hstep
    exact ⟨hop.kind.1.trans hcapacity, hop.kind.2.trans hpolicy,
      hcounted.step (hcapacity.symm ▸ hcap) hop⟩
  obtain ⟨hcapacity, hpolicy, hcounted⟩ := hkept
  obtain ⟨l, hl⟩ := run_ledgered (fresh_ledgered capacity policy) hrun
  refine ⟨hcapacity, hpolicy, ⟨hcounted, ⟨l, hl, ?_⟩, ?_⟩, ?_⟩
  · rw [kept_eq hl.fifo, hl.popped, hl.queued]
  · rw [hcounted.pushes, hcounted.pops]
    exact hl.conserved
  · intro hclosed ops' q' t' hrest
    refine run_preserves (fun w => DrainsTo q t w.1 w.2) (fun w op w' hw hs => ?_) hrest
      (drainsTo_refl hclosed)
    obtain ⟨hstep, hnote⟩ := watch_eq_some.mp hs
    exact hw.step (hnote ▸ step_opStep hstep)

/-- Three pushes into a queue of two, one pop, and the close. -/
def overflowing : List (QueueOp Nat) := [.push 1, .push 2, .push 3, .pop, .close, .push 4]

theorem run_isBoundedFifo_overflowing :
    ∃ q t, run (watch step note) (fresh 2 .dropOldest, {}) overflowing = some (q, t) ∧
      t.popped = [2] ∧ t.evicted = [1] ∧ q.items = [3] ∧ t.refused = 1 ∧ IsBoundedFifo q t := by
  obtain ⟨w, hw⟩ : ∃ w, run (watch step note) (fresh 2 .dropOldest, {}) overflowing = some w :=
    ⟨_, rfl⟩
  have hfifo := (run_isBoundedFifo (by decide) hw).2.2.1
  cases hw
  exact ⟨_, _, rfl, rfl, rfl, rfl, rfl, hfifo⟩

end BoundedQueue

end Acva.Bus

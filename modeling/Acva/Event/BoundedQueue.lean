/-! # The bounded queue

One mutex guards the whole queue, so every operation is one step. A push that
would wait has no result: the producer tries again once the state has changed,
which is what its condition variable does.
-/

namespace Acva.Bus

inductive OverflowPolicy
  | dropOldest
  | dropNewest
  | block
deriving DecidableEq, Repr

structure BoundedQueue (α : Type) where
  capacity : Nat
  policy : OverflowPolicy
  items : List α := []
  closed : Bool := false
  pushes : Nat := 0
  pops : Nat := 0
  drops : Nat := 0
deriving DecidableEq, Repr

namespace BoundedQueue

variable {α : Type}

def full (q : BoundedQueue α) : Bool := q.capacity ≤ q.items.length

/-- `push_back` and the counter. -/
def append (x : α) (q : BoundedQueue α) : BoundedQueue α :=
  { q with items := q.items ++ [x], pushes := q.pushes + 1 }

/-- The return value with the new queue, or `none` while the producer has to wait. -/
def push (x : α) (q : BoundedQueue α) : Option (Bool × BoundedQueue α) :=
  if q.closed = true then some (false, q)
  else if q.full = true then
    match q.policy with
    | .dropOldest =>
        some (true, append x { q with items := q.items.tail, drops := q.drops + 1 })
    | .dropNewest => some (false, { q with drops := q.drops + 1 })
    | .block => none
  else some (true, q.append x)

/-- An item, or `none` once the queue is closed and empty; no result while the consumer
has to wait. -/
def pop (q : BoundedQueue α) : Option (Option α × BoundedQueue α) :=
  match q.items with
  | x :: rest => some (some x, { q with items := rest, pops := q.pops + 1 })
  | [] => if q.closed = true then some (none, q) else none

/-- `pop_until`; the caller gives up waiting once its deadline has passed. -/
def popUntil (expired : Bool) (q : BoundedQueue α) : Option (Option α × BoundedQueue α) :=
  match q.items with
  | x :: rest => some (some x, { q with items := rest, pops := q.pops + 1 })
  | [] => if q.closed = true ∨ expired = true then some (none, q) else none

/-- `try_pop`, which never waits. -/
def tryPop (q : BoundedQueue α) : Option α × BoundedQueue α :=
  match q.items with
  | x :: rest => (some x, { q with items := rest, pops := q.pops + 1 })
  | [] => (none, q)

def close (q : BoundedQueue α) : BoundedQueue α := { q with closed := true }

variable {q q' : BoundedQueue α}

@[simp] theorem close_items (q : BoundedQueue α) : q.close.items = q.items := rfl

@[simp] theorem close_capacity (q : BoundedQueue α) : q.close.capacity = q.capacity := rfl

@[simp] theorem close_policy (q : BoundedQueue α) : q.close.policy = q.policy := rfl

@[simp] theorem close_closed (q : BoundedQueue α) : q.close.closed = true := rfl

/-- What a push may do to a blocking queue. -/
theorem push_of_block {x : α} {ok : Bool} (hp : q.policy = .block)
    (h : q.push x = some (ok, q')) :
    (q.closed = true ∧ q' = q) ∨ (q.closed = false ∧ q.items.length < q.capacity ∧
      q' = q.append x) := by
  unfold push at h
  split at h
  next hclosed =>
    simp only [Option.some.injEq, Prod.mk.injEq] at h
    exact .inl ⟨hclosed, h.2.symm⟩
  next hopen =>
    split at h
    next => simp [hp] at h
    next hfull =>
      simp only [Option.some.injEq, Prod.mk.injEq] at h
      simp only [full, decide_eq_true_eq, Nat.not_le] at hfull
      exact .inr ⟨by simpa using hopen, hfull, h.2.symm⟩

/-- A producer waits exactly on a full open queue that blocks. -/
theorem push_eq_none_iff {x : α} :
    q.push x = none ↔ q.closed = false ∧ q.capacity ≤ q.items.length ∧ q.policy = .block := by
  unfold push full
  cases q.closed with
  | true => simp
  | false =>
      simp only [Bool.false_eq_true, ↓reduceIte, decide_eq_true_eq, true_and]
      split
      next hfull => cases hp : q.policy <;> simp [hfull]
      next hfull => simp [hfull]

theorem push_capacity {x : α} {ok : Bool} (h : q.push x = some (ok, q')) :
    q'.capacity = q.capacity ∧ q'.policy = q.policy ∧ q'.closed = q.closed := by
  unfold push at h
  split at h
  · cases h
    exact ⟨rfl, rfl, rfl⟩
  · split at h
    · split at h
      · cases h
        exact ⟨rfl, rfl, rfl⟩
      · cases h
        exact ⟨rfl, rfl, rfl⟩
      · cases h
    · cases h
      exact ⟨rfl, rfl, rfl⟩

/-- A push adds its item at most. -/
theorem mem_of_mem_push {x y : α} {ok : Bool} (h : q.push x = some (ok, q'))
    (hy : y ∈ q'.items) : y ∈ q.items ∨ y = x := by
  have happend : ∀ items : List α, y ∈ items ++ [x] → y ∈ items ∨ y = x := by
    intro items hy
    simpa using hy
  unfold push at h
  split at h
  · cases h
    exact .inl hy
  · split at h
    · split at h
      · cases h
        exact (happend _ hy).imp_left List.mem_of_mem_tail
      · cases h
        exact .inl hy
      · cases h
    · cases h
      exact happend _ hy

/-- A pop takes the front item, or finds the queue closed and empty. -/
theorem pop_eq_some {r : Option α} (h : q.pop = some (r, q')) :
    (∃ x, r = some x ∧ q.items = x :: q'.items ∧
        q' = { q with items := q'.items, pops := q.pops + 1 }) ∨
      (r = none ∧ q.items = [] ∧ q.closed = true ∧ q' = q) := by
  unfold pop at h
  split at h
  next x rest hitems =>
    cases h
    exact .inl ⟨x, rfl, hitems, rfl⟩
  next hitems =>
    split at h
    next hclosed =>
      cases h
      exact .inr ⟨rfl, hitems, hclosed, rfl⟩
    next => cases h

end BoundedQueue

end Acva.Bus

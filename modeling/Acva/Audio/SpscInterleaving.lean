import Acva.Audio.SpscRing
import Acva.Core.Runs

/-! # The capture ring between two threads

Each load, each access of a slot and each store is a step of its own, of the one producer or
of the one consumer. A value is accepted with the store of the tail and popped with the store
of the head. Between its comparison and that store a call relies on an index that the other
thread may be moving; it only moves the way that does no harm.
-/

namespace Acva.Audio

open Runs

/-- Where `push` stands. -/
inductive PushPc (T : Type) (k : Nat)
  | outside
  | loadedTail (value : T) (tail : Fin (2 ^ k))
  /-- There is room; about to access the slot. -/
  | writing (value : T) (tail : Fin (2 ^ k))
  /-- About to store `tail_`. -/
  | storing (value : T) (tail : Fin (2 ^ k))
  | returned (accepted : Bool)
deriving DecidableEq, Repr

/-- Where `pop` stands. -/
inductive PopPc (T : Type) (k : Nat)
  | outside
  | loadedHead (head : Fin (2 ^ k))
  /-- There is a value; about to access the slot. -/
  | reading (head : Fin (2 ^ k))
  /-- About to store `head_`. -/
  | storing (out : T) (head : Fin (2 ^ k))
  | returned (out : Option T)
deriving DecidableEq, Repr

inductive SpscAction (T : Type)
  /-- A call of `push` loads `tail_`. -/
  | push (value : T)
  | loadHead
  | writeSlot
  | storeTail
  /-- A call of `pop` loads `head_`. -/
  | pop
  | loadTail
  /-- The value is moved out, which may leave another behind. -/
  | readSlot (leftover : T)
  | storeHead
deriving DecidableEq, Repr

structure SpscHost (T : Type) (k : Nat) where
  ring : SpscRing T k
  pushPc : PushPc T k := .outside
  popPc : PopPc T k := .outside

namespace SpscHost

variable {T : Type} {k : Nat}

open SpscRing (mask)

def new (slots : Fin (2 ^ k) → T) : SpscHost T k where
  ring := { tail := mask k 0, head := mask k 0, slots := slots }

def step (s : SpscHost T k) : SpscAction T → Option (SpscHost T k)
  | .push value =>
      match s.pushPc with
      | .outside | .returned _ => some { s with pushPc := .loadedTail value s.ring.tail }
      | _ => none
  | .loadHead =>
      match s.pushPc with
      | .loadedTail value tail =>
          some
            { s with
              pushPc :=
                if mask k (tail + 1) = s.ring.head then .returned false
                else .writing value tail }
      | _ => none
  | .writeSlot =>
      match s.pushPc with
      | .writing value tail =>
          some
            { s with
              ring := { s.ring with slots := Function.update s.ring.slots tail value }
              pushPc := .storing value tail }
      | _ => none
  | .storeTail =>
      match s.pushPc with
      | .storing _ tail =>
          some
            { s with
              ring := { s.ring with tail := mask k (tail + 1) }
              pushPc := .returned true }
      | _ => none
  | .pop =>
      match s.popPc with
      | .outside | .returned _ => some { s with popPc := .loadedHead s.ring.head }
      | _ => none
  | .loadTail =>
      match s.popPc with
      | .loadedHead head =>
          some
            { s with popPc := if head = s.ring.tail then .returned none else .reading head }
      | _ => none
  | .readSlot leftover =>
      match s.popPc with
      | .reading head =>
          some
            { s with
              ring := { s.ring with slots := Function.update s.ring.slots head leftover }
              popPc := .storing (s.ring.slots head) head }
      | _ => none
  | .storeHead =>
      match s.popPc with
      | .storing out head =>
          some
            { s with
              ring := { s.ring with head := mask k (head + 1) }
              popPc := .returned (some out) }
      | _ => none

/-- A call that nobody disturbs is the ring's own push. -/
theorem run_push (value : T) (s : SpscHost T k) (h : s.pushPc = .outside) :
    (s.ring.push value = none →
      run step s [.push value, .loadHead] = some { s with pushPc := .returned false }) ∧
    ∀ ring, s.ring.push value = some ring →
      run step s [.push value, .loadHead, .writeSlot, .storeTail] =
        some { s with ring := ring, pushPc := .returned true } := by
  unfold SpscRing.push
  by_cases hfull : mask k (s.ring.tail + 1) = s.ring.head
  · simp [step, h, hfull]
  · simp [step, h, hfull]

theorem run_pop (s : SpscHost T k) (h : s.popPc = .outside) :
    (s.ring.pop = none →
      run step s [.pop, .loadTail] = some { s with popPc := .returned none }) ∧
    ∀ out ring, s.ring.pop = some (out, ring) →
      run step s [.pop, .loadTail, .readSlot out, .storeHead] =
        some { s with ring := ring, popPc := .returned (some out) } := by
  unfold SpscRing.pop
  by_cases hempty : s.ring.head = s.ring.tail
  · simp [step, h, hempty]
  · simp only [hempty, ↓reduceIte, reduceCtorEq, false_implies, true_and, Option.some.injEq,
      Prod.mk.injEq]
    rintro out ring ⟨rfl, rfl⟩
    simp [step, h, hempty]

end SpscHost

/-! ## What has been pushed, popped and read -/

/-- A slot is unread from the access of a push to it until that of a pop. -/
structure SpscLog (T : Type) (k : Nat) where
  accepted : List T := []
  popped : List T := []
  unread : Fin (2 ^ k) → Bool := fun _ => false

namespace SpscLog

variable {T : Type} {k : Nat}

/-- How many values the ring holds. -/
def held (l : SpscLog T k) : Nat := l.accepted.length - l.popped.length

def note (l : SpscLog T k) (s : SpscHost T k) : SpscAction T → SpscLog T k
  | .writeSlot =>
      match s.pushPc with
      | .writing _ tail => { l with unread := Function.update l.unread tail true }
      | _ => l
  | .storeTail =>
      match s.pushPc with
      | .storing value _ => { l with accepted := l.accepted ++ [value] }
      | _ => l
  | .readSlot _ =>
      match s.popPc with
      | .reading head => { l with unread := Function.update l.unread head false }
      | _ => l
  | .storeHead =>
      match s.popPc with
      | .storing out _ => { l with popped := l.popped ++ [out] }
      | _ => l
  | _ => l

end SpscLog

namespace SpscHost

variable {T : Type} {k : Nat} {s s' : SpscHost T k} {l l' : SpscLog T k}

open SpscRing (mask)

/-- Places under a capacity apart do not share a slot. -/
theorem mask_ne {i j : Nat} (hij : i < j) (hnear : j < i + 2 ^ k) : mask k i ≠ mask k j := by
  intro hsame
  have hsame' : mask k (i + 0) = mask k (i + (j - i)) := by
    rwa [Nat.add_zero, Nat.add_sub_cancel' (Nat.le_of_lt hij)]
  have := SpscRing.mask_add_injective (Nat.two_pow_pos k) (by omega) hsame'
  omega

/-- A push that has its tail knows where that is; one that has compared it knows that there is
room for a value more, and one that has written knows what the slot holds. -/
def PushOk (ring : SpscRing T k) (l : SpscLog T k) : PushPc T k → Prop
  | .outside | .returned _ => True
  | .loadedTail _ tail => tail = mask k l.accepted.length
  | .writing _ tail =>
      tail = mask k l.accepted.length ∧ l.accepted.length + 1 < l.popped.length + 2 ^ k
  | .storing value tail =>
      tail = mask k l.accepted.length ∧ l.accepted.length + 1 < l.popped.length + 2 ^ k ∧
        ring.slots tail = value

/-- A pop that has compared knows that a value is there, and one that has read has the next. -/
def PopOk (l : SpscLog T k) : PopPc T k → Prop
  | .outside | .returned _ => True
  | .loadedHead head => head = mask k l.popped.length
  | .reading head => head = mask k l.popped.length ∧ l.popped.length < l.accepted.length
  | .storing out head =>
      head = mask k l.popped.length ∧ l.accepted[l.popped.length]? = some out

/-- The values that are written: those accepted, and the one whose push is about to be. -/
def written (pc : PushPc T k) (l : SpscLog T k) : Nat :=
  match pc with
  | .storing _ _ => l.accepted.length + 1
  | _ => l.accepted.length

/-- The values that are read: those popped, and the one whose pop is about to be. -/
def read (pc : PopPc T k) (l : SpscLog T k) : Nat :=
  match pc with
  | .storing _ _ => l.popped.length + 1
  | _ => l.popped.length

/-- What holds between any two steps of the two threads. -/
structure Inv (s : SpscHost T k) (l : SpscLog T k) : Prop where
  fifo : l.popped <+: l.accepted
  room : l.accepted.length < l.popped.length + 2 ^ k
  tail : s.ring.tail = mask k l.accepted.length
  head : s.ring.head = mask k l.popped.length
  slots : ∀ i, read s.popPc l ≤ i → i < l.accepted.length →
    l.accepted[i]? = some (s.ring.slots (mask k i))
  unread : ∀ j, l.unread j = true ↔ ∃ i, read s.popPc l ≤ i ∧ i < written s.pushPc l ∧ mask k i = j
  push : PushOk s.ring l s.pushPc
  pop : PopOk l s.popPc

namespace Inv

theorem popped_le (h : Inv s l) : l.popped.length ≤ l.accepted.length := h.fifo.length_le

theorem pushAt (h : Inv s l) {pc : PushPc T k} (hpc : s.pushPc = pc) : PushOk s.ring l pc :=
  hpc ▸ h.push

theorem popAt (h : Inv s l) {pc : PopPc T k} (hpc : s.popPc = pc) : PopOk l pc :=
  hpc ▸ h.pop

theorem written_lt (h : Inv s l) : written s.pushPc l < l.popped.length + 2 ^ k := by
  have hroom := h.room
  cases hpc : s.pushPc with
  | storing value tail => exact (h.pushAt hpc).2.1
  | _ => exact hroom

theorem popped_le_read (s : SpscHost T k) (l : SpscLog T k) :
    l.popped.length ≤ read s.popPc l := by
  unfold read
  split <;> omega

theorem read_le (h : Inv s l) : read s.popPc l ≤ l.accepted.length := by
  have hle := h.popped_le
  cases hpc : s.popPc with
  | storing out head => exact (List.getElem?_eq_some_iff.mp (h.popAt hpc).2).1
  | _ => exact hle

/-- What the comparison of a push finds. -/
theorem full_iff (h : Inv s l) {value : T} {tail : Fin (2 ^ k)}
    (hpc : s.pushPc = .loadedTail value tail) :
    mask k (tail + 1) = s.ring.head ↔ l.held = 2 ^ k - 1 := by
  have hle := h.popped_le
  have hroom := h.room
  have htail : tail = mask k l.accepted.length := h.pushAt hpc
  rw [htail, h.head, SpscRing.mask_mask_add, SpscLog.held]
  constructor
  · intro hfull
    by_contra hother
    exact mask_ne (show l.popped.length < l.accepted.length + 1 by omega) (by omega) hfull.symm
  · intro hfull
    have hround : l.accepted.length + 1 = l.popped.length + 2 ^ k := by omega
    refine Fin.ext ?_
    rw [hround, SpscRing.val_mask, SpscRing.val_mask, Nat.add_mod_right]

/-- What the comparison of a pop finds. -/
theorem empty_iff (h : Inv s l) {head : Fin (2 ^ k)} (hpc : s.popPc = .loadedHead head) :
    head = s.ring.tail ↔ l.held = 0 := by
  have hle := h.popped_le
  have hroom := h.room
  have hhead : head = mask k l.popped.length := h.popAt hpc
  rw [hhead, h.tail, SpscLog.held]
  constructor
  · intro hempty
    by_contra hother
    exact mask_ne (show l.popped.length < l.accepted.length by omega) hroom hempty
  · intro hempty
    rw [show l.popped.length = l.accepted.length by omega]

/-- A push is never about to write a slot that is unread. -/
theorem writes_read_slot (h : Inv s l) {value : T} {tail : Fin (2 ^ k)}
    (hpc : s.pushPc = .writing value tail) : l.unread tail = false := by
  have hle := popped_le_read s l
  have hroom := h.room
  have htail : tail = mask k l.accepted.length := (h.pushAt hpc).1
  rw [← Bool.not_eq_true, h.unread, hpc, htail]
  rintro ⟨i, hi, hlt, hsame⟩
  exact mask_ne (show i < l.accepted.length from hlt) (by omega) hsame

/-- A pop is never about to read a slot that is not. -/
theorem reads_unread_slot (h : Inv s l) {head : Fin (2 ^ k)} (hpc : s.popPc = .reading head) :
    l.unread head = true := by
  have hpop := h.popAt hpc
  rw [h.unread, hpc, hpop.1]
  have hle : l.accepted.length ≤ written s.pushPc l := by
    unfold written
    split <;> omega
  exact ⟨l.popped.length, Nat.le_refl _, Nat.lt_of_lt_of_le hpop.2 hle, rfl⟩

/-! ### One step -/

theorem withPush (h : Inv s l) {pc : PushPc T k} (hwritten : written pc l = written s.pushPc l)
    (hok : PushOk s.ring l pc) : Inv { s with pushPc := pc } l :=
  { h with
    unread := fun j => by rw [h.unread j, hwritten]
    push := hok }

theorem withPop (h : Inv s l) {pc : PopPc T k} (hread : read pc l = read s.popPc l)
    (hok : PopOk l pc) : Inv { s with popPc := pc } l :=
  { h with
    slots := fun i hi => h.slots i (hread ▸ hi)
    unread := fun j => by rw [h.unread j, hread]
    pop := hok }

theorem loadHead (h : Inv s l) {value : T} {tail : Fin (2 ^ k)}
    (hpc : s.pushPc = .loadedTail value tail) :
    Inv { s with
      pushPc := if mask k (tail + 1) = s.ring.head then .returned false
        else .writing value tail } l := by
  have hroom := h.room
  have hpush := h.pushAt hpc
  by_cases hfull : mask k (tail + 1) = s.ring.head
  · rw [if_pos hfull]
    exact h.withPush (by rw [hpc]; rfl) trivial
  · rw [if_neg hfull]
    rw [h.full_iff hpc, SpscLog.held] at hfull
    exact h.withPush (by rw [hpc]; rfl) ⟨hpush, by omega⟩

theorem loadTail (h : Inv s l) {head : Fin (2 ^ k)} (hpc : s.popPc = .loadedHead head) :
    Inv { s with popPc := if head = s.ring.tail then .returned none else .reading head } l := by
  have hpop := h.popAt hpc
  by_cases hempty : head = s.ring.tail
  · rw [if_pos hempty]
    exact h.withPop (by rw [hpc]; rfl) trivial
  · rw [if_neg hempty]
    rw [h.empty_iff hpc, SpscLog.held] at hempty
    exact h.withPop (by rw [hpc]; rfl) ⟨hpop, by omega⟩

theorem writeSlot (h : Inv s l) {value : T} {tail : Fin (2 ^ k)}
    (hpc : s.pushPc = .writing value tail) :
    Inv
      { s with
        ring := { s.ring with slots := Function.update s.ring.slots tail value }
        pushPc := .storing value tail }
      { l with unread := Function.update l.unread tail true } := by
  have hroom := h.room
  have hread := h.read_le
  have hpopped := popped_le_read s l
  have hunread := h.unread
  rw [hpc] at hunread
  obtain ⟨rfl, hfree⟩ := h.pushAt hpc
  have hslots : ∀ i, read s.popPc l ≤ i → i < l.accepted.length →
      l.accepted[i]? =
        some (Function.update s.ring.slots (mask k l.accepted.length) value (mask k i)) := by
    intro i hi hlt
    have hother : mask k i ≠ mask k l.accepted.length := mask_ne hlt (by omega)
    rw [Function.update_of_ne hother]
    exact h.slots i hi hlt
  have hslot : ∀ j, Function.update l.unread (mask k l.accepted.length) true j = true ↔
      ∃ i, read s.popPc l ≤ i ∧ i < l.accepted.length + 1 ∧ mask k i = j := by
    intro j
    by_cases hj : j = mask k l.accepted.length
    · rw [hj, Function.update_self]
      exact iff_of_true rfl ⟨l.accepted.length, hread, Nat.lt_succ_self _, rfl⟩
    · rw [Function.update_of_ne hj, hunread]
      constructor
      · rintro ⟨i, hi, hlt, heq⟩
        exact ⟨i, hi, Nat.lt_succ_of_lt hlt, heq⟩
      · rintro ⟨i, hi, hlt, rfl⟩
        have hne : i ≠ l.accepted.length := fun heq => hj (by rw [heq])
        exact ⟨i, hi, Nat.lt_of_le_of_ne (Nat.le_of_lt_succ hlt) hne, rfl⟩
  exact
    { h with
      slots := hslots
      unread := hslot
      push := ⟨rfl, hfree, Function.update_self _ _ _⟩ }

theorem storeTail (h : Inv s l) {value : T} {tail : Fin (2 ^ k)}
    (hpc : s.pushPc = .storing value tail) :
    Inv
      { s with
        ring := { s.ring with tail := mask k (tail + 1) }
        pushPc := .returned true }
      { l with accepted := l.accepted ++ [value] } := by
  have hunread := h.unread
  rw [hpc] at hunread
  obtain ⟨rfl, hfree, hvalue⟩ := h.pushAt hpc
  have hlen : (l.accepted ++ [value]).length = l.accepted.length + 1 := List.length_append
  have hslots : ∀ i, read s.popPc l ≤ i → i < (l.accepted ++ [value]).length →
      (l.accepted ++ [value])[i]? = some (s.ring.slots (mask k i)) := by
    intro i hi hlt
    by_cases hlast : i = l.accepted.length
    · rw [hlast, List.getElem?_concat_length, hvalue]
    · rw [hlen] at hlt
      have hold : i < l.accepted.length := by omega
      rw [List.getElem?_append_left hold]
      exact h.slots i hi hold
  have hslot : ∀ j, l.unread j = true ↔
      ∃ i, read s.popPc l ≤ i ∧ i < (l.accepted ++ [value]).length ∧ mask k i = j := by
    rw [hlen]
    exact hunread
  have hpop : PopOk { l with accepted := l.accepted ++ [value] } s.popPc := by
    cases hpc' : s.popPc with
    | reading head =>
        have hpop := h.popAt hpc'
        exact ⟨hpop.1, Nat.lt_of_lt_of_le hpop.2 (by simp)⟩
    | storing out head =>
        have hpop := h.popAt hpc'
        refine ⟨hpop.1, ?_⟩
        rw [List.getElem?_append_left (List.getElem?_eq_some_iff.mp hpop.2).1]
        exact hpop.2
    | _ => exact h.popAt hpc'
  exact
    { fifo := h.fifo.trans (List.prefix_append _ _)
      room := hlen ▸ hfree
      tail := hlen ▸ SpscRing.mask_mask_add _ _
      head := h.head
      slots := hslots
      unread := hslot
      push := trivial
      pop := hpop }

theorem readSlot (h : Inv s l) {head : Fin (2 ^ k)} (hpc : s.popPc = .reading head)
    (leftover : T) :
    Inv
      { s with
        ring := { s.ring with slots := Function.update s.ring.slots head leftover }
        popPc := .storing (s.ring.slots head) head }
      { l with unread := Function.update l.unread head false } := by
  have hroom := h.room
  have hwritten := h.written_lt
  have hslots := h.slots
  have hunread := h.unread
  rw [hpc] at hslots hunread
  obtain ⟨rfl, hsome⟩ := h.popAt hpc
  have hslots' : ∀ i, l.popped.length + 1 ≤ i → i < l.accepted.length →
      l.accepted[i]? =
        some (Function.update s.ring.slots (mask k l.popped.length) leftover (mask k i)) := by
    intro i hi hlt
    have hother : mask k l.popped.length ≠ mask k i := mask_ne hi (by omega)
    rw [Function.update_of_ne hother.symm]
    exact hslots i (Nat.le_of_succ_le hi) hlt
  have hslot : ∀ j, Function.update l.unread (mask k l.popped.length) false j = true ↔
      ∃ i, l.popped.length + 1 ≤ i ∧ i < written s.pushPc l ∧ mask k i = j := by
    intro j
    by_cases hj : j = mask k l.popped.length
    · rw [hj, Function.update_self]
      refine iff_of_false Bool.false_ne_true ?_
      rintro ⟨i, hi, hlt, hsame⟩
      exact mask_ne hi (by omega) hsame.symm
    · rw [Function.update_of_ne hj, hunread]
      constructor
      · rintro ⟨i, hi, hlt, rfl⟩
        have hne : l.popped.length ≠ i := fun heq => hj (by rw [heq])
        exact ⟨i, Nat.lt_of_le_of_ne hi hne, hlt, rfl⟩
      · rintro ⟨i, hi, hlt, heq⟩
        exact ⟨i, Nat.le_of_succ_le hi, hlt, heq⟩
  have hpush : PushOk
      { s.ring with slots := Function.update s.ring.slots (mask k l.popped.length) leftover }
      l s.pushPc := by
    cases hpc' : s.pushPc with
    | storing value tail =>
        obtain ⟨rfl, hfree, hvalue⟩ := h.pushAt hpc'
        refine ⟨rfl, hfree, ?_⟩
        -- the slot that was just written is another than the one that was read
        have hother : mask k l.popped.length ≠ mask k l.accepted.length := mask_ne hsome hroom
        exact (Function.update_of_ne hother.symm _ _).trans hvalue
    | _ => exact h.pushAt hpc'
  exact
    { h with
      slots := hslots'
      unread := hslot
      push := hpush
      pop := ⟨rfl, hslots _ (Nat.le_refl _) hsome⟩ }

theorem storeHead (h : Inv s l) {out : T} {head : Fin (2 ^ k)}
    (hpc : s.popPc = .storing out head) :
    Inv
      { s with
        ring := { s.ring with head := mask k (head + 1) }
        popPc := .returned (some out) }
      { l with popped := l.popped ++ [out] } := by
  have hroom := h.room
  have hslots := h.slots
  have hunread := h.unread
  rw [hpc] at hslots hunread
  obtain ⟨rfl, hout⟩ := h.popAt hpc
  have hlen : (l.popped ++ [out]).length = l.popped.length + 1 := List.length_append
  have hmore : l.popped.length + 2 ^ k ≤ (l.popped ++ [out]).length + 2 ^ k := by omega
  have hfifo : l.popped ++ [out] <+: l.accepted := by
    have hnext : l.accepted.take (l.popped.length + 1) = l.popped ++ [out] := by
      rw [List.take_add_one, ← List.prefix_iff_eq_take.mp h.fifo, hout]
      rfl
    exact hnext ▸ List.take_prefix _ _
  have hpush : PushOk { s.ring with head := mask k (mask k l.popped.length + 1) }
      { l with popped := l.popped ++ [out] } s.pushPc := by
    cases hpc' : s.pushPc with
    | writing value tail =>
        have hpush := h.pushAt hpc'
        exact ⟨hpush.1, Nat.lt_of_lt_of_le hpush.2 hmore⟩
    | storing value tail =>
        have hpush := h.pushAt hpc'
        exact ⟨hpush.1, Nat.lt_of_lt_of_le hpush.2.1 hmore, hpush.2.2⟩
    | _ => exact h.pushAt hpc'
  have hslots' : ∀ i, (l.popped ++ [out]).length ≤ i → i < l.accepted.length →
      l.accepted[i]? = some (s.ring.slots (mask k i)) := by
    rw [hlen]
    exact hslots
  have hslot : ∀ j, l.unread j = true ↔
      ∃ i, (l.popped ++ [out]).length ≤ i ∧ i < written s.pushPc l ∧ mask k i = j := by
    rw [hlen]
    exact hunread
  exact
    { fifo := hfifo
      room := Nat.lt_of_lt_of_le hroom hmore
      tail := h.tail
      head := hlen ▸ SpscRing.mask_mask_add _ _
      slots := hslots'
      unread := hslot
      push := hpush
      pop := trivial }

/-- A step of either thread keeps the invariant. -/
theorem step (h : Inv s l) {a : SpscAction T} (hs : s.step a = some s') :
    Inv s' (l.note s a) := by
  cases a with
  | push value =>
      simp only [SpscHost.step] at hs
      split at hs <;> cases hs
      next hpc => exact h.withPush (by rw [hpc]; rfl) h.tail
      next hpc => exact h.withPush (by rw [hpc]; rfl) h.tail
  | loadHead =>
      simp only [SpscHost.step] at hs
      split at hs <;> cases hs
      next hpc => exact h.loadHead hpc
  | writeSlot =>
      simp only [SpscHost.step] at hs
      split at hs <;> cases hs
      next hpc =>
        simp only [SpscLog.note, hpc]
        exact h.writeSlot hpc
  | storeTail =>
      simp only [SpscHost.step] at hs
      split at hs <;> cases hs
      next hpc =>
        simp only [SpscLog.note, hpc]
        exact h.storeTail hpc
  | pop =>
      simp only [SpscHost.step] at hs
      split at hs <;> cases hs
      next hpc => exact h.withPop (by rw [hpc]; rfl) h.head
      next hpc => exact h.withPop (by rw [hpc]; rfl) h.head
  | loadTail =>
      simp only [SpscHost.step] at hs
      split at hs <;> cases hs
      next hpc => exact h.loadTail hpc
  | readSlot leftover =>
      simp only [SpscHost.step] at hs
      split at hs <;> cases hs
      next hpc =>
        simp only [SpscLog.note, hpc]
        exact h.readSlot hpc leftover
  | storeHead =>
      simp only [SpscHost.step] at hs
      split at hs <;> cases hs
      next hpc =>
        simp only [SpscLog.note, hpc]
        exact h.storeHead hpc

theorem new (slots : Fin (2 ^ k) → T) : Inv (.new slots) ({} : SpscLog T k) where
  fifo := List.nil_prefix
  room := Nat.lt_of_lt_of_le (Nat.two_pow_pos k) (Nat.le_add_left _ _)
  tail := rfl
  head := rfl
  slots := fun i _ hi => absurd hi (Nat.not_lt_zero i)
  unread := fun _ => iff_of_false Bool.false_ne_true fun ⟨i, _, hi, _⟩ => Nat.not_lt_zero i hi
  push := trivial
  pop := trivial

/-- What any interleaving of the two threads' steps keeps. -/
theorem run {slots : Fin (2 ^ k) → T} {as : List (SpscAction T)}
    (hrun : Runs.run (watch SpscHost.step SpscLog.note) (.new slots, {}) as = some (s, l)) :
    Inv s l :=
  run_preserves (fun p : SpscHost T k × SpscLog T k => Inv p.1 p.2)
    (fun p a p' hinv hstep => by
      obtain ⟨hs, hl⟩ := watch_eq_some.mp hstep
      rw [hl]
      exact hinv.step hs) hrun (new slots)

end Inv

/-- However the threads' steps interleave, the popped values come off the accepted ones in
order, a push writes no slot that is still to be read and a pop reads no other, and each
comparison that turns a call away is true of the ring at that moment. -/
theorem interleaving_fifo (slots : Fin (2 ^ k) → T) (as : List (SpscAction T))
    (s : SpscHost T k) (l : SpscLog T k)
    (hrun : run (watch step SpscLog.note) (new slots, {}) as = some (s, l)) :
    l.popped <+: l.accepted ∧ l.held ≤ 2 ^ k - 1 ∧
      (∀ value tail, s.pushPc = .writing value tail → l.unread tail = false) ∧
      (∀ head, s.popPc = .reading head → l.unread head = true) ∧
      (∀ s', s.step .loadHead = some s' → s'.pushPc = .returned false → l.held = 2 ^ k - 1) ∧
      ∀ s', s.step .loadTail = some s' → s'.popPc = .returned none → l.held = 0 := by
  have h := Inv.run hrun
  have hroom := h.room
  refine ⟨h.fifo, by rw [SpscLog.held]; omega, fun value tail hpc => h.writes_read_slot hpc,
    fun head hpc => h.reads_unread_slot hpc, ?_, ?_⟩
  · intro s' hs hrefused
    simp only [step] at hs
    split at hs <;> cases hs
    next value tail hpc =>
      refine (h.full_iff hpc).mp ?_
      by_contra hother
      simp only [hother, ↓reduceIte, reduceCtorEq] at hrefused
  · intro s' hs hnothing
    simp only [step] at hs
    split at hs <;> cases hs
    next head hpc =>
      refine (h.empty_iff hpc).mp ?_
      by_contra hother
      simp only [hother, ↓reduceIte, reduceCtorEq] at hnothing

/-- A pop empties the one slot between the comparisons of two pushes. -/
def oneSlot : List (SpscAction Nat) :=
  [.push 7, .loadHead, .pop, .writeSlot, .storeTail, .loadTail, .push 8, .readSlot 0,
    .loadHead, .storeHead, .push 9, .loadHead, .writeSlot, .storeTail]

theorem interleaving_fifo_oneSlot :
    ∃ (s : SpscHost Nat 1) (l : SpscLog Nat 1),
      run (watch step SpscLog.note) (new fun _ => 0, {}) oneSlot = some (s, l) ∧
        l.accepted = [7, 9] ∧ l.popped = [7] ∧ l.popped <+: l.accepted ∧ l.held ≤ 1 := by
  refine ⟨_, _, rfl, rfl, rfl, ?_⟩
  have h := interleaving_fifo (fun _ : Fin (2 ^ 1) => 0) oneSlot _ _ rfl
  exact ⟨h.1, h.2.1⟩

end SpscHost

end Acva.Audio

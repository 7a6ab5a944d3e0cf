import Mathlib.Data.List.Basic

/-! # What became of what came in

A buffer takes things in at its end; later each of them is served or discarded, or
it waits. The ledger lists all that came in, in the order of arrival, with the fate
of each so far.
-/

namespace Acva.Ledger

inductive Fate
  | waiting
  | served
  | discarded
deriving DecidableEq, Repr

structure Entry (α : Type*) where
  item : α
  fate : Fate
deriving DecidableEq, Repr

variable {α : Type*} {l : List (Entry α)} {fate other : Fate}

def arrivals (l : List (Entry α)) : List α := l.map (·.item)

def withFate (fate : Fate) (l : List (Entry α)) : List α :=
  (l.filter fun e => e.fate = fate).map (·.item)

/-- What was not discarded. -/
def kept (l : List (Entry α)) : List α := (l.filter fun e => e.fate ≠ .discarded).map (·.item)

/-- Whatever has met the fate came in before everything that waits. -/
def InOrder (fate : Fate) (l : List (Entry α)) : Prop :=
  l.Pairwise fun a b => b.fate = fate → a.fate ≠ .waiting

theorem withFate_append (fate : Fate) (l l' : List (Entry α)) :
    withFate fate (l ++ l') = withFate fate l ++ withFate fate l' := by
  simp [withFate]

theorem withFate_cons (fate : Fate) (e : Entry α) (l : List (Entry α)) :
    withFate fate (e :: l) =
      if e.fate = fate then e.item :: withFate fate l else withFate fate l := by
  unfold withFate
  by_cases h : e.fate = fate
  · simp [h]
  · simp [h]

theorem kept_of_discarded_eq_nil (h : withFate .discarded l = []) : kept l = arrivals l := by
  rw [withFate, List.map_eq_nil_iff, List.filter_eq_nil_iff] at h
  refine congrArg (List.map _) (List.filter_eq_self.mpr fun e he => ?_)
  simpa using h e he

theorem kept_sublist (l : List (Entry α)) : List.Sublist (kept l) (arrivals l) :=
  List.filter_sublist.map _

/-- Each thing that came in has one fate. -/
theorem length_arrivals (l : List (Entry α)) : (arrivals l).length =
    (withFate .waiting l).length + (withFate .served l).length +
      (withFate .discarded l).length := by
  induction l with
  | nil => rfl
  | cons e l ih =>
      have hitems : (arrivals (e :: l)).length = (arrivals l).length + 1 := rfl
      rw [hitems, ih]
      simp only [withFate_cons]
      cases h : e.fate with
      | waiting => simp; omega
      | served => simp; omega
      | discarded => simp; omega

/-- The served things and then the waiting ones are all that was not discarded. -/
theorem kept_eq (h : InOrder .served l) : kept l = withFate .served l ++ withFate .waiting l := by
  induction l with
  | nil => rfl
  | cons e l ih =>
      obtain ⟨hfirst, hrest⟩ := List.pairwise_cons.mp h
      have hkept : kept (e :: l) =
          if e.fate = .discarded then kept l else e.item :: kept l := by
        by_cases hf : e.fate = .discarded <;> simp [kept, hf]
      rw [hkept, ih hrest, withFate_cons, withFate_cons]
      cases hfate : e.fate with
      | served => simp
      | discarded => simp
      | waiting =>
          have hnone : withFate .served l = [] := by
            rw [withFate, List.map_eq_nil_iff, List.filter_eq_nil_iff]
            intro b hb hserved
            exact hfirst b hb (by simpa using hserved) hfate
          simp [hnone]

/-! ## Arrival -/

def arrive (x : α) (l : List (Entry α)) : List (Entry α) := l ++ [⟨x, .waiting⟩]

@[simp] theorem arrivals_arrive (x : α) (l : List (Entry α)) :
    arrivals (arrive x l) = arrivals l ++ [x] := by
  simp [arrivals, arrive]

@[simp] theorem waiting_arrive (x : α) (l : List (Entry α)) :
    withFate .waiting (arrive x l) = withFate .waiting l ++ [x] := by
  rw [arrive, withFate_append]
  rfl

theorem withFate_arrive (hfate : fate ≠ .waiting) (x : α) (l : List (Entry α)) :
    withFate fate (arrive x l) = withFate fate l := by
  rw [arrive, withFate_append, withFate_cons, if_neg (Ne.symm hfate)]
  exact List.append_nil _

theorem InOrder.arrive (h : InOrder fate l) (hfate : fate ≠ .waiting) (x : α) :
    InOrder fate (arrive x l) := by
  refine List.pairwise_append.mpr ⟨h, List.pairwise_singleton _ _, fun a _ b hb hb' => ?_⟩
  rw [List.mem_singleton.mp hb] at hb'
  exact absurd hb'.symm hfate

/-! ## The first that waits -/

/-- The first thing that waits meets its fate. -/
def settleFirst (fate : Fate) : List (Entry α) → List (Entry α)
  | [] => []
  | e :: l => if e.fate = .waiting then { e with fate := fate } :: l else e :: settleFirst fate l

@[simp] theorem arrivals_settleFirst (fate : Fate) (l : List (Entry α)) :
    arrivals (settleFirst fate l) = arrivals l := by
  induction l with
  | nil => rfl
  | cons e l ih =>
      simp only [settleFirst]
      split
      · rfl
      · exact congrArg (e.item :: ·) ih

theorem waiting_settleFirst (hfate : fate ≠ .waiting) (l : List (Entry α)) :
    withFate .waiting (settleFirst fate l) = (withFate .waiting l).tail := by
  induction l with
  | nil => rfl
  | cons e l ih =>
      simp only [settleFirst]
      split
      next hwaits =>
        rw [withFate_cons, withFate_cons, if_neg hfate, if_pos hwaits]
        rfl
      next hwaits => rw [withFate_cons, withFate_cons, if_neg hwaits, if_neg hwaits, ih]

theorem withFate_settleFirst (hother : other ≠ .waiting) (hne : other ≠ fate)
    (l : List (Entry α)) : withFate other (settleFirst fate l) = withFate other l := by
  induction l with
  | nil => rfl
  | cons e l ih =>
      simp only [settleFirst]
      split
      next hwaits =>
        rw [withFate_cons, withFate_cons, if_neg (Ne.symm hne), hwaits, if_neg (Ne.symm hother)]
      next => rw [withFate_cons, withFate_cons, ih]

/-- In order, the first that waits is the last so far to meet the fate. -/
theorem withFate_settleFirst_self (h : InOrder fate l) (hfate : fate ≠ .waiting) :
    withFate fate (settleFirst fate l) =
      withFate fate l ++ (withFate .waiting l).head?.toList := by
  induction l with
  | nil => rfl
  | cons e l ih =>
      obtain ⟨hfirst, hrest⟩ := List.pairwise_cons.mp h
      simp only [settleFirst]
      split
      next hwaits =>
        have hnone : withFate fate l = [] := by
          rw [withFate, List.map_eq_nil_iff, List.filter_eq_nil_iff]
          intro b hb hmet
          exact hfirst b hb (by simpa using hmet) hwaits
        rw [withFate_cons, withFate_cons, withFate_cons, if_pos rfl, if_pos hwaits, hwaits,
          if_neg (Ne.symm hfate), hnone]
        rfl
      next hwaits =>
        rw [withFate_cons, withFate_cons, withFate_cons, if_neg hwaits, ih hrest]
        split <;> rfl

/-- Whatever fate the first that waits meets, the others keep their order. -/
theorem InOrder.settleFirst (h : InOrder other l) (hfate : fate ≠ .waiting) :
    InOrder other (settleFirst fate l) := by
  induction l with
  | nil => exact h
  | cons e l ih =>
      obtain ⟨hfirst, hrest⟩ := List.pairwise_cons.mp h
      simp only [Ledger.settleFirst]
      split
      · exact List.pairwise_cons.mpr ⟨fun b _ _ => hfate, hrest⟩
      next hwaits => exact List.pairwise_cons.mpr ⟨fun b _ _ => hwaits, ih hrest⟩

/-- The first `n` things that wait are discarded. -/
def discardFirst : Nat → List (Entry α) → List (Entry α)
  | 0, l => l
  | n + 1, l => discardFirst n (settleFirst .discarded l)

@[simp] theorem arrivals_discardFirst (n : Nat) (l : List (Entry α)) :
    arrivals (discardFirst n l) = arrivals l := by
  induction n generalizing l with
  | zero => rfl
  | succ n ih => rw [discardFirst, ih, arrivals_settleFirst]

theorem waiting_discardFirst (n : Nat) (l : List (Entry α)) :
    withFate .waiting (discardFirst n l) = (withFate .waiting l).drop n := by
  induction n generalizing l with
  | zero => rfl
  | succ n ih => rw [discardFirst, ih, waiting_settleFirst (by decide), List.drop_tail]

theorem served_discardFirst (n : Nat) (l : List (Entry α)) :
    withFate .served (discardFirst n l) = withFate .served l := by
  induction n generalizing l with
  | zero => rfl
  | succ n ih => rw [discardFirst, ih, withFate_settleFirst (by decide) (by decide)]

theorem InOrder.discardFirst (h : InOrder other l) (n : Nat) :
    InOrder other (discardFirst n l) := by
  induction n generalizing l with
  | zero => exact h
  | succ n ih => exact ih (h.settleFirst (by decide))

/-! ## Discarding by a test -/

/-- Everything that waits and meets the test is discarded. -/
def discard (p : α → Bool) (l : List (Entry α)) : List (Entry α) :=
  l.map fun e => if e.fate = .waiting ∧ p e.item = true then { e with fate := .discarded } else e

@[simp] theorem arrivals_discard (p : α → Bool) (l : List (Entry α)) :
    arrivals (discard p l) = arrivals l := by
  rw [arrivals, discard, List.map_map]
  refine List.map_congr_left fun e _ => ?_
  simp only [Function.comp]
  split <;> rfl

theorem discard_cons (p : α → Bool) (e : Entry α) (l : List (Entry α)) : discard p (e :: l) =
    (if e.fate = .waiting ∧ p e.item = true then { e with fate := .discarded } else e) ::
      discard p l := rfl

theorem waiting_discard (p : α → Bool) (l : List (Entry α)) :
    withFate .waiting (discard p l) = (withFate .waiting l).filter fun x => !p x := by
  induction l with
  | nil => rfl
  | cons e l ih =>
      rw [discard_cons, withFate_cons, withFate_cons, ih]
      by_cases hwaits : e.fate = .waiting
      · cases hp : p e.item with
        | true => simp [hwaits, hp]
        | false => simp [hwaits, hp]
      · simp [hwaits]

theorem served_discard (p : α → Bool) (l : List (Entry α)) :
    withFate .served (discard p l) = withFate .served l := by
  induction l with
  | nil => rfl
  | cons e l ih =>
      rw [discard_cons, withFate_cons, withFate_cons, ih]
      by_cases h : e.fate = .waiting ∧ p e.item = true
      · simp [h.1, h.2]
      · simp only [if_neg h]

theorem InOrder.discard (h : InOrder .served l) (p : α → Bool) :
    InOrder .served (discard p l) := by
  refine List.pairwise_map.mpr (List.Pairwise.imp ?_ h)
  intro a b hab
  by_cases ha : a.fate = .waiting ∧ p a.item = true
  · simp [ha]
  · by_cases hb : b.fate = .waiting ∧ p b.item = true
    · simp [hb]
    · simpa only [if_neg ha, if_neg hb] using hab

end Acva.Ledger

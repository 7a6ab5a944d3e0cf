import Mathlib.Order.Basic

/-! # Statements and transactions

A database engine as a program sees it: it issues statements one after the other, and a
schedule says which of them fail. A statement outside a transaction takes effect at once; a
failing one changes nothing, but the engine may take the open transaction back. A program that
stops at the first failure computes what its statements compute, or breaks off at a fault.
-/

namespace Acva.Transactions

universe u

variable {δ μ ε : Type*} {α β : Type u}

structure Fault (μ : Type*) where
  /-- It shows when the statement is prepared, before it runs. -/
  preparing : Bool := false
  /-- The engine takes the open transaction back. -/
  rollsBack : Bool := false
  message : μ

inductive Refusal
  /-- A transaction is begun inside another. -/
  | nested
  /-- There is no transaction to end. -/
  | commitOutside
  | rollbackOutside
deriving DecidableEq, Repr

inductive Failure (μ : Type*)
  | fault (f : Fault μ)
  | refused (r : Refusal)

structure Connection (δ μ : Type*) where
  /-- What a query reads. -/
  content : δ
  /-- What it read when the open transaction began. -/
  saved : Option δ := none
  /-- The statements that fail, by their number. -/
  faults : Nat → Option (Fault μ) := fun _ => none
  issued : Nat := 0

namespace Connection

/-! ## Statements -/

def next (c : Connection δ μ) : Connection δ μ := { c with issued := c.issued + 1 }

def takeBack (c : Connection δ μ) : Connection δ μ :=
  match c.saved with
  | some d => { c with content := d, saved := none }
  | none => c

/-- A failed statement has no effect of its own. -/
def spoil (f : Fault μ) (c : Connection δ μ) : Connection δ μ :=
  if f.rollsBack = true then c.next.takeBack else c.next

def issue (f : δ → α × δ) (c : Connection δ μ) : Except (Fault μ) α × Connection δ μ :=
  match c.faults c.issued with
  | some fault => (.error fault, c.spoil fault)
  | none => (.ok (f c.content).1, { c.next with content := (f c.content).2 })

/-- The statements that begin and end transactions; `move` is `none` where they are refused. -/
def control (refusal : Refusal) (move : Connection δ μ → Option (Connection δ μ))
    (c : Connection δ μ) : Option (Failure μ) × Connection δ μ :=
  match c.faults c.issued with
  | some fault => (some (.fault fault), c.spoil fault)
  | none =>
      match move c with
      | some c' => (none, c'.next)
      | none => (some (.refused refusal), c.next)

def begin : Connection δ μ → Option (Failure μ) × Connection δ μ :=
  control .nested fun c =>
    if c.saved.isSome = true then none else some { c with saved := some c.content }

def commit : Connection δ μ → Option (Failure μ) × Connection δ μ :=
  control .commitOutside fun c => c.saved.map fun _ => { c with saved := none }

def rollback : Connection δ μ → Option (Failure μ) × Connection δ μ :=
  control .rollbackOutside fun c => c.saved.map fun d => { c with content := d, saved := none }

/-! ## What statements leave -/

/-- None of the next `n` statements fails. -/
def Clear (n : Nat) (c : Connection δ μ) : Prop := ∀ j < n, c.faults (c.issued + j) = none

/-- `n` statements have gone well and left the content `d`. -/
def after (n : Nat) (d : δ) (c : Connection δ μ) : Connection δ μ :=
  { c with content := d, issued := c.issued + n }

/-- The transaction is as it was, or it is taken back with all that was done in it. -/
def Kept (c c' : Connection δ μ) : Prop :=
  c'.saved = c.saved ∨ c'.saved = none ∧ c.saved = some c'.content

/-- One of the next `n` statements has failed, and it is the last that was issued. -/
structure Broken (n : Nat) (c c' : Connection δ μ) : Prop where
  fault : ∃ j < n, c.faults (c.issued + j) ≠ none ∧ c'.issued = c.issued + j + 1
  faults : c'.faults = c.faults
  kept : c.Kept c'

variable {c c' c'' : Connection δ μ} {n m : Nat} {d : δ}

@[simp] theorem after_content : (c.after n d).content = d := rfl
@[simp] theorem after_saved : (c.after n d).saved = c.saved := rfl
@[simp] theorem after_faults : (c.after n d).faults = c.faults := rfl
@[simp] theorem after_issued : (c.after n d).issued = c.issued + n := rfl

theorem after_after (d' : δ) : (c.after n d).after m d' = c.after (n + m) d' := by
  simp only [after, Nat.add_assoc]

theorem clear_add : c.Clear (n + m) ↔ c.Clear n ∧ (c.after n d).Clear m := by
  constructor
  · intro h
    refine ⟨fun j hj => h j (by omega), fun j hj => ?_⟩
    rw [after_faults, after_issued, Nat.add_assoc]
    exact h (n + j) (by omega)
  · rintro ⟨hn, hm⟩ j hj
    by_cases hjn : j < n
    · exact hn j hjn
    · have := hm (j - n) (by omega)
      rwa [after_faults, after_issued, Nat.add_assoc, Nat.add_sub_cancel' (by omega)] at this

namespace Broken

theorem mono (hb : c.Broken n c') (h : n ≤ m) : c.Broken m c' := by
  obtain ⟨j, hj, hfault, hissued⟩ := hb.fault
  exact ⟨⟨j, by omega, hfault, hissued⟩, hb.faults, hb.kept⟩

/-- What goes well before the fault is of no matter. -/
theorem of_after (hb : (c.after n d).Broken m c') : c.Broken (n + m) c' := by
  obtain ⟨j, hj, hfault, hissued⟩ := hb.fault
  rw [after_faults, after_issued, Nat.add_assoc] at hfault
  rw [after_issued] at hissued
  exact ⟨⟨n + j, by omega, hfault, by omega⟩, hb.faults, hb.kept⟩

theorem not_clear (hb : c.Broken n c') : ¬c.Clear n := by
  intro hclear
  obtain ⟨j, hj, hfault, -⟩ := hb.fault
  exact hfault (hclear j hj)

end Broken

theorem issue_ok {f : δ → α × δ} {a : α} (h : c.issue f = (.ok a, c')) :
    c.Clear 1 ∧ a = (f c.content).1 ∧ c' = c.after 1 (f c.content).2 := by
  unfold issue at h
  split at h
  next => cases h
  next hnone =>
    cases h
    refine ⟨fun j hj => ?_, rfl, rfl⟩
    obtain rfl : j = 0 := by omega
    exact hnone

theorem spoil_kept (fault : Fault μ) (c : Connection δ μ) : c.Kept (c.spoil fault) := by
  unfold spoil
  split
  · unfold takeBack
    cases hsaved : c.saved with
    | none => exact .inl (by simp [next, hsaved])
    | some d => exact .inr (by simp [next, hsaved])
  · exact .inl rfl

@[simp] theorem spoil_faults (fault : Fault μ) (c : Connection δ μ) :
    (c.spoil fault).faults = c.faults := by
  unfold spoil takeBack
  split
  · split <;> rfl
  · rfl

@[simp] theorem spoil_issued (fault : Fault μ) (c : Connection δ μ) :
    (c.spoil fault).issued = c.issued + 1 := by
  unfold spoil takeBack
  split
  · split <;> rfl
  · rfl

theorem issue_error {f : δ → α × δ} {fault : Fault μ} (h : c.issue f = (.error fault, c')) :
    c.faults c.issued = some fault ∧ c' = c.spoil fault := by
  unfold issue at h
  split at h
  next fault' hfault =>
    cases h
    exact ⟨hfault, rfl⟩
  next => cases h

theorem spoil_broken {fault : Fault μ} (h : c.faults c.issued = some fault) :
    c.Broken 1 (c.spoil fault) :=
  ⟨⟨0, Nat.one_pos, by simp [h], by simp⟩, by simp, spoil_kept fault c⟩

/-! ## Ends of transactions -/

@[simp] theorem begin_faults (c : Connection δ μ) : c.begin.2.faults = c.faults := by
  unfold begin control
  split
  next => exact spoil_faults _ _
  next =>
    split
    next c' hmove =>
      dsimp only at hmove
      split at hmove
      · cases hmove
      · cases hmove
        rfl
    next => rfl

theorem begin_of_clear (hfault : c.faults c.issued = none) (hsaved : c.saved = none) :
    c.begin = (none, { c.next with saved := some c.content }) := by
  simp [begin, control, hfault, hsaved, next]

theorem begin_of_fault {fault : Fault μ} (hfault : c.faults c.issued = some fault) :
    c.begin = (some (.fault fault), c.spoil fault) := by
  simp only [begin, control, hfault]

/-- A transaction that is open after `begin` has the content in it. -/
theorem begin_content (h : c.begin.2.saved ≠ none) : c.begin.2.content = c.content := by
  cases hfault : c.faults c.issued with
  | some fault =>
      rw [begin_of_fault hfault] at h ⊢
      unfold spoil at h ⊢
      split
      next hback =>
        rw [if_pos hback] at h
        unfold takeBack at h ⊢
        split at h
        · exact absurd rfl h
        next hsaved => exact absurd hsaved h
      next => rfl
  | none =>
      cases hsaved : c.saved with
      | none => rw [begin_of_clear hfault hsaved]; rfl
      | some d => simp [begin, control, hfault, hsaved, next]

theorem commit_ok (h : c.commit = (none, c')) :
    c.saved ≠ none ∧ c' = { c.next with saved := none } := by
  unfold commit control at h
  split at h
  next => cases h
  next =>
    split at h
    next c₁ hmove =>
      cases h
      obtain ⟨d, hsaved, rfl⟩ := Option.map_eq_some_iff.mp hmove
      exact ⟨by simp [hsaved], rfl⟩
    next => cases h

theorem commit_of_clear (hfault : c.faults c.issued = none) (hsaved : c.saved ≠ none) :
    c.commit = (none, { c.next with saved := none }) := by
  obtain ⟨d, hd⟩ := Option.ne_none_iff_exists'.mp hsaved
  simp [commit, control, hfault, hd, next]

/-- A commit that does not go well has a fault, or there is nothing to commit. -/
theorem commit_error {f : Failure μ} (h : c.commit = (some f, c')) :
    (∃ fault, c.faults c.issued = some fault ∧ c' = c.spoil fault) ∨
      c.saved = none ∧ c' = c.next := by
  unfold commit control at h
  split at h
  next fault hfault =>
    cases h
    exact .inl ⟨fault, hfault, rfl⟩
  next =>
    split at h
    next => cases h
    next hmove =>
      cases h
      exact .inr ⟨Option.map_eq_none_iff.mp hmove, rfl⟩

theorem rollback_of_some {d : δ} (hfault : c.faults c.issued = none) (hsaved : c.saved = some d) :
    c.rollback.2 = { c.next with content := d, saved := none } := by
  simp [rollback, control, hfault, hsaved, next]

theorem rollback_of_none (hfault : c.faults c.issued = none) (hsaved : c.saved = none) :
    c.rollback.2 = c.next := by
  simp [rollback, control, hfault, hsaved]

/-! ## Reads -/

/-- `n` statements were issued, and none of them had an effect; at worst the engine has taken the
transaction back. -/
structure Reads (n : Nat) (c c' : Connection δ μ) : Prop where
  issued : c'.issued = c.issued + n
  faults : c'.faults = c.faults
  kept : c'.content = c.content ∧ c'.saved = c.saved ∨
    c'.saved = none ∧ c.saved = some c'.content ∧ ¬c.Clear n

namespace Reads

theorem refl (c : Connection δ μ) : c.Reads 0 c := ⟨rfl, rfl, .inl ⟨rfl, rfl⟩⟩

theorem of_spoil {fault : Fault μ} (h : c.faults c.issued = some fault) :
    c.Reads 1 (c.spoil fault) := by
  refine ⟨by simp, by simp, ?_⟩
  have hfails : ¬c.Clear 1 := (spoil_broken h).not_clear
  unfold spoil
  split
  · unfold takeBack
    cases hsaved : c.saved with
    | none => exact .inl (by simp [next, hsaved])
    | some d => exact .inr (by simp [next, hsaved, hfails])
  · exact .inl ⟨rfl, rfl⟩

theorem trans (h : c.Reads n c') (h' : c'.Reads m c'') : c.Reads (n + m) c'' := by
  have hclear : c.Clear (n + m) → c.Clear n ∧ c'.Clear m := by
    intro hall
    refine ⟨fun j hj => hall j (by omega), fun j hj => ?_⟩
    rw [h.faults, h.issued, Nat.add_assoc]
    exact hall (n + j) (by omega)
  refine ⟨by rw [h'.issued, h.issued, Nat.add_assoc], h'.faults.trans h.faults, ?_⟩
  obtain ⟨hcontent, hsaved⟩ | ⟨hnone, htaken, hfails⟩ := h.kept
  · obtain ⟨hcontent', hsaved'⟩ | ⟨hnone', htaken', hfails'⟩ := h'.kept
    · exact .inl ⟨hcontent'.trans hcontent, hsaved'.trans hsaved⟩
    · exact .inr ⟨hnone', hsaved ▸ htaken', fun hall => hfails' (hclear hall).2⟩
  · obtain ⟨hcontent', hsaved'⟩ | ⟨-, htaken', -⟩ := h'.kept
    · refine .inr ⟨hsaved'.trans hnone, ?_, fun hall => hfails (hclear hall).1⟩
      rw [hcontent']
      exact htaken
    · rw [hnone] at htaken'
      cases htaken'

end Reads

end Connection

/-! ## Programs -/

/-- A program issues statements, and an error ends it. -/
def Program (δ μ ε α : Type*) := Connection δ μ → Except ε α × Connection δ μ

namespace Program

instance : Monad (Program δ μ ε) where
  pure a := fun c => (.ok a, c)
  bind x f := fun c =>
    match x c with
    | (.ok a, c') => f a c'
    | (.error e, c') => (.error e, c')

def statement (toError : Fault μ → ε) (f : δ → α × δ) : Program δ μ ε α := fun c =>
  match c.issue f with
  | (.ok a, c') => (.ok a, c')
  | (.error fault, c') => (.error (toError fault), c')

/-- Go on with `a` where the program fails. -/
def orElse (x : Program δ μ ε α) (a : α) : Program δ μ ε α := fun c =>
  match x c with
  | (.ok a', c') => (.ok a', c')
  | (.error _, c') => (.ok a, c')

/-- The program computes `f` with `n` statements, or one of them fails and ends it. -/
structure Computes (x : Program δ μ ε α) (f : δ → α × δ) (n : δ → Nat) : Prop where
  ok : ∀ {c a c'}, x c = (.ok a, c') →
    c.Clear (n c.content) ∧ a = (f c.content).1 ∧ c' = c.after (n c.content) (f c.content).2
  error : ∀ {c e c'}, x c = (.error e, c') → c.Broken (n c.content) c'

namespace Computes

variable {x : Program δ μ ε α} {f : δ → α × δ} {n : δ → Nat}

theorem congr (hx : x.Computes f n) {f' : δ → α × δ} {n' : δ → Nat} (hf : ∀ d, f d = f' d)
    (hn : ∀ d, n d = n' d) : x.Computes f' n' := by
  obtain rfl : f = f' := funext hf
  obtain rfl : n = n' := funext hn
  exact hx

protected theorem pure (a : α) : (pure a : Program δ μ ε α).Computes (fun d => (a, d)) fun _ => 0 where
  ok := by
    intro c a' c' h
    cases h
    exact ⟨fun j hj => absurd hj (Nat.not_lt_zero j), rfl, rfl⟩
  error := by
    intro c e c' h
    cases h

theorem statement (toError : Fault μ → ε) (f : δ → α × δ) :
    (Program.statement toError f).Computes f fun _ => 1 where
  ok := by
    intro c a c' h
    unfold Program.statement at h
    split at h
    next hissue =>
      cases h
      exact Connection.issue_ok hissue
    next => cases h
  error := by
    intro c e c' h
    unfold Program.statement at h
    split at h
    next => cases h
    next hissue =>
      cases h
      obtain ⟨hfault, rfl⟩ := Connection.issue_error hissue
      exact Connection.spoil_broken hfault

protected theorem bind {y : α → Program δ μ ε β} {g : α → δ → β × δ} {m : α → δ → Nat}
    (hx : x.Computes f n) (hy : ∀ a, (y a).Computes (g a) (m a)) :
    (x >>= y).Computes (fun d => g (f d).1 (f d).2) fun d => n d + m (f d).1 (f d).2 where
  ok := by
    intro c b c'' h
    simp only [bind] at h
    split at h
    next a c' hrun =>
      obtain ⟨hclear, rfl, rfl⟩ := hx.ok hrun
      obtain ⟨hclear', rfl, rfl⟩ := (hy _).ok h
      exact ⟨Connection.clear_add.mpr ⟨hclear, hclear'⟩, rfl, Connection.after_after _⟩
    next => cases h
  error := by
    intro c e c'' h
    simp only [bind] at h
    split at h
    next a c' hrun =>
      obtain ⟨-, rfl, rfl⟩ := hx.ok hrun
      exact ((hy _).error h).of_after
    next hrun =>
      cases h
      exact (hx.error hrun).mono (Nat.le_add_right _ _)

/-- A loop whose rounds issue `k` statements each. -/
theorem foldlM {y : β → α → Program δ μ ε β} {g : β → α → δ → β × δ} {k : Nat}
    (hy : ∀ b a, (y b a).Computes (g b a) fun _ => k) (as : List α) (b : β) :
    (as.foldlM y b).Computes (fun d => as.foldl (fun p a => g p.1 a p.2) (b, d))
      fun _ => as.length * k := by
  induction as generalizing b with
  | nil => simpa using Computes.pure b
  | cons a as ih =>
      have hrest := (hy b a).bind ih
      simpa [Nat.succ_mul, Nat.add_comm] using hrest

end Computes

/-! ## Programs that read and go on -/

/-- The program reads with `n` statements and goes on whatever becomes of them. -/
def Peeks (x : Program δ μ ε α) (n : Nat) (Q : α → Prop) : Prop :=
  ∀ c, ∃ a c', x c = (.ok a, c') ∧ Q a ∧ c.Reads n c'

namespace Peeks

variable {x : Program δ μ ε α} {n : Nat} {Q : α → Prop}

protected theorem pure {a : α} (h : Q a) : (pure a : Program δ μ ε α).Peeks 0 Q :=
  fun c => ⟨a, c, rfl, h, .refl c⟩

theorem orElse (toError : Fault μ → ε) (f : δ → α) (a : α) :
    ((statement toError fun d => (f d, d)).orElse a).Peeks 1 fun _ => True := by
  intro c
  cases hissue : c.issue fun d => (f d, d) with
  | mk r c' =>
      cases r with
      | ok b =>
          refine ⟨b, c', ?_, trivial, ?_⟩
          · simp only [Program.orElse, statement, hissue]
          · obtain ⟨-, -, rfl⟩ := Connection.issue_ok hissue
            exact ⟨rfl, rfl, .inl ⟨rfl, rfl⟩⟩
      | error fault =>
          refine ⟨a, c', ?_, trivial, ?_⟩
          · simp only [Program.orElse, statement, hissue]
          · obtain ⟨hfault, rfl⟩ := Connection.issue_error hissue
            exact .of_spoil hfault

protected theorem bind {y : α → Program δ μ ε β} {m : Nat} {R : β → Prop} (hx : x.Peeks n Q)
    (hy : ∀ a, Q a → (y a).Peeks m R) : (x >>= y).Peeks (n + m) R := by
  intro c
  obtain ⟨a, c', hrun, ha, hreads⟩ := hx c
  obtain ⟨b, c'', hrun', hb, hreads'⟩ := hy a ha c'
  refine ⟨b, c'', ?_, hb, hreads.trans hreads'⟩
  simp only [bind, hrun]
  exact hrun'

/-- A loop whose rounds issue `k` statements each. -/
theorem foldlM {y : β → α → Program δ μ ε β} {k : Nat} {I : Nat → β → Prop}
    (hy : ∀ i b a, I i b → (y b a).Peeks k (I (i + 1))) (as : List α) {i : Nat} {b : β}
    (hb : I i b) : (as.foldlM y b).Peeks (as.length * k) (I (i + as.length)) := by
  induction as generalizing i b with
  | nil => simpa using Peeks.pure hb
  | cons a as ih =>
      have hrest := (hy i b a hb).bind fun b' hb' => ih hb'
      simpa [Nat.succ_mul, Nat.add_comm, Nat.add_left_comm] using hrest

end Peeks

end Program

end Acva.Transactions

import Mathlib.Data.Option.Basic
import Mathlib.Order.Basic

/-! # Runs of labelled transition functions

A system is a partial step function: `step s a = none` says that action `a` is
not enabled in `s`. A run is a list of actions, each enabled where it is taken,
so an interleaving of several threads is one list. The rules below carry an
invariant along every run, or along the runs whose steps all meet a condition
on the state before the step. The last section bounds an iteration by a measure.
-/

namespace Acva.Runs

variable {σ α μ : Type*}

/-! ## Runs -/

/-- Take the actions in order; `none` as soon as one is not enabled. -/
def run (step : σ → α → Option σ) : σ → List α → Option σ
  | s, [] => some s
  | s, a :: as => (step s a).bind fun s' => run step s' as

/-- Every step the run takes meets `ok` in the state before the step. -/
def Always (step : σ → α → Option σ) (ok : σ → α → Prop) : σ → List α → Prop
  | _, [] => True
  | s, a :: as => ok s a ∧ ∀ s', step s a = some s' → Always step ok s' as

variable {step : σ → α → Option σ} {ok : σ → α → Prop}

@[simp] theorem run_nil (s : σ) : run step s [] = some s := rfl

@[simp] theorem run_cons (s : σ) (a : α) (as : List α) :
    run step s (a :: as) = (step s a).bind fun s' => run step s' as := rfl

@[simp] theorem always_nil (s : σ) : Always step ok s [] := trivial

theorem run_cons_eq_some {s s' : σ} {a : α} {as : List α} :
    run step s (a :: as) = some s' ↔ ∃ t, step s a = some t ∧ run step t as = some s' := by
  simp [Option.bind_eq_some_iff]

/-- Split a run at any boundary. -/
theorem run_append (s : σ) (as bs : List α) :
    run step s (as ++ bs) = (run step s as).bind fun s' => run step s' bs := by
  induction as generalizing s with
  | nil => rfl
  | cons a as ih =>
      cases h : step s a with
      | none => simp [h]
      | some t => simpa [h] using ih t

theorem always_of_forall (h : ∀ s a, ok s a) (s : σ) (as : List α) : Always step ok s as := by
  induction as generalizing s with
  | nil => trivial
  | cons a as ih => exact ⟨h s a, fun t _ => ih t⟩

theorem always_cons_of_none {s : σ} {a : α} {as : List α} (hs : step s a = none) :
    Always step ok s (a :: as) ↔ ok s a := by
  simp [Always, hs]

theorem always_cons_of_some {s t : σ} {a : α} {as : List α} (hs : step s a = some t) :
    Always step ok s (a :: as) ↔ ok s a ∧ Always step ok t as := by
  simp [Always, hs]

/-- A decidable condition can be checked along a run. -/
instance decidableAlways [∀ s a, Decidable (ok s a)] :
    ∀ (s : σ) (as : List α), Decidable (Always step ok s as)
  | _, [] => isTrue trivial
  | s, a :: as =>
      match hs : step s a with
      | none => decidable_of_iff (ok s a) (always_cons_of_none hs).symm
      | some t =>
          haveI := decidableAlways t as
          decidable_of_iff (ok s a ∧ Always step ok t as) (always_cons_of_some hs).symm

/-! ## Invariants along runs -/

/-- What every permitted step preserves, every permitted run preserves. -/
theorem run_invariant {Inv : σ → Prop}
    (hstep : ∀ s a s', Inv s → ok s a → step s a = some s' → Inv s')
    {s s' : σ} {as : List α} (hrun : run step s as = some s')
    (hok : Always step ok s as) (h : Inv s) : Inv s' := by
  induction as generalizing s with
  | nil => exact Option.some.inj hrun ▸ h
  | cons a as ih =>
      obtain ⟨t, ht, hrest⟩ := run_cons_eq_some.mp hrun
      exact ih hrest (hok.2 t ht) (hstep s a t h hok.1 ht)

/-- The unconditional rule: every step preserves, so every run does. -/
theorem run_preserves (Inv : σ → Prop)
    (hstep : ∀ s a s', Inv s → step s a = some s' → Inv s')
    {s s' : σ} {as : List α} (hrun : run step s as = some s') (h : Inv s) : Inv s' :=
  run_invariant (fun s a s' hi _ hs => hstep s a s' hi hs) hrun
    (always_of_forall (fun _ _ => (trivial : True)) s as) h

/-- Where a step keeps what is good exactly if it is permitted, and nothing makes good
what is bad, the run's last state tells whether all its steps were permitted. -/
theorem run_iff_always (Inv Good : σ → Prop)
    (hstep : ∀ s a s', Inv s → step s a = some s' → Inv s')
    (hgood : ∀ s a s', Inv s → Good s → step s a = some s' → (Good s' ↔ ok s a))
    (hbad : ∀ s a s', Inv s → ¬ Good s → step s a = some s' → ¬ Good s')
    {s s' : σ} {as : List α} (hrun : run step s as = some s') (hi : Inv s) (hg : Good s) :
    Good s' ↔ Always step ok s as := by
  induction as generalizing s with
  | nil => exact iff_of_true (Option.some.inj hrun ▸ hg) trivial
  | cons a as ih =>
      obtain ⟨t, ht, hrest⟩ := run_cons_eq_some.mp hrun
      have hone := hgood s a t hi hg ht
      rw [always_cons_of_some ht]
      by_cases hok : ok s a
      · rw [ih hrest (hstep s a t hi ht) (hone.mpr hok), and_iff_right hok]
      · have hlast : Inv s' ∧ ¬ Good s' :=
          run_preserves (fun u => Inv u ∧ ¬ Good u)
            (fun u b u' hu hs => ⟨hstep u b u' hu.1 hs, hbad u b u' hu.1 hu.2 hs⟩) hrest
            ⟨hstep s a t hi ht, fun h => hok (hone.mp h)⟩
        exact iff_of_false hlast.2 fun hall => hok hall.1

/-! ## Watching a run

A monitor reads the run without touching it: its value is folded over the
states and actions seen so far. -/

/-- The step function with a monitor beside the state. -/
def watch (step : σ → α → Option σ) (note : μ → σ → α → μ) (p : σ × μ) (a : α) :
    Option (σ × μ) :=
  (step p.1 a).map fun s' => (s', note p.2 p.1 a)

theorem watch_eq_some {note : μ → σ → α → μ} {p p' : σ × μ} {a : α} :
    watch step note p a = some p' ↔ step p.1 a = some p'.1 ∧ p'.2 = note p.2 p.1 a := by
  obtain ⟨s', m'⟩ := p'
  simp only [watch, Option.map_eq_some_iff, Prod.mk.injEq]
  constructor
  · rintro ⟨t, ht, rfl, rfl⟩
    exact ⟨ht, rfl⟩
  · rintro ⟨ht, rfl⟩
    exact ⟨s', ht, rfl, rfl⟩

/-- A watched run exists exactly over each run of the system. -/
theorem run_watch (note : μ → σ → α → μ) {s s' : σ} (m : μ) {as : List α}
    (hrun : run step s as = some s') : ∃ m', run (watch step note) (s, m) as = some (s', m') := by
  induction as generalizing s m with
  | nil => exact ⟨m, by rw [run_nil] at hrun ⊢; rw [Option.some.inj hrun]⟩
  | cons a as ih =>
      obtain ⟨t, ht, hrest⟩ := run_cons_eq_some.mp hrun
      obtain ⟨m', hm'⟩ := ih (note m s a) hrest
      exact ⟨m', run_cons_eq_some.mpr ⟨(t, note m s a), watch_eq_some.mpr ⟨ht, rfl⟩, hm'⟩⟩

/-! ## Views

A view keeps a part of a system's state. Where the part moves as another system
does, each run is a run of the other system, and a condition on the steps of the
other is a condition on the steps of the first.
-/

theorem always_append {s t : σ} {as bs : List α} (hrun : run step s as = some t) :
    Always step ok s (as ++ bs) ↔ Always step ok s as ∧ Always step ok t bs := by
  induction as generalizing s with
  | nil =>
      rw [Option.some.inj hrun]
      exact (and_iff_right trivial).symm
  | cons a as ih =>
      obtain ⟨u, hu, hrest⟩ := run_cons_eq_some.mp hrun
      rw [List.cons_append, always_cons_of_some hu, always_cons_of_some hu, ih hrest, and_assoc]

section Views

variable {τ β : Type*} {step' : τ → β → Option τ} {view : σ → τ} {label : σ → α → List β}

/-- In the view each step does what its label says. -/
def Projects (step : σ → α → Option σ) (step' : τ → β → Option τ) (view : σ → τ)
    (label : σ → α → List β) : Prop :=
  ∀ s a s', step s a = some s' → run step' (view s) (label s a) = some (view s')

/-- What the other system does in a run. -/
def labels (step : σ → α → Option σ) (label : σ → α → List β) : σ → List α → List β
  | _, [] => []
  | s, a :: as => label s a ++ ((step s a).map fun s' => labels step label s' as).getD []

theorem labels_cons {s t : σ} {a : α} {as : List α} (hs : step s a = some t) :
    labels step label s (a :: as) = label s a ++ labels step label t as := by
  simp [labels, hs]

theorem Projects.run (h : Projects step step' view label) {s s' : σ} {as : List α}
    (hrun : run step s as = some s') :
    Runs.run step' (view s) (labels step label s as) = some (view s') := by
  induction as generalizing s with
  | nil => exact congrArg (Option.map view) hrun
  | cons a as ih =>
      obtain ⟨t, ht, hrest⟩ := run_cons_eq_some.mp hrun
      rw [labels_cons ht, run_append, h s a t ht]
      exact ih hrest

/-- The other system's steps are all permitted exactly if those are that make them. -/
theorem Projects.always_iff (h : Projects step step' view label) {ok' : τ → β → Prop}
    {s s' : σ} {as : List α} (hrun : Runs.run step s as = some s') :
    Always step' ok' (view s) (labels step label s as) ↔
      Always step (fun s a => Always step' ok' (view s) (label s a)) s as := by
  induction as generalizing s with
  | nil => exact Iff.rfl
  | cons a as ih =>
      obtain ⟨t, ht, hrest⟩ := run_cons_eq_some.mp hrun
      rw [labels_cons ht, always_cons_of_some ht, always_append (h s a t ht), ih hrest]

/-- A monitor changes nothing about what the other system does. -/
theorem labels_watch (note : μ → σ → α → μ) (p : σ × μ) (as : List α) :
    labels (watch step note) (fun p a => label p.1 a) p as = labels step label p.1 as := by
  induction as generalizing p with
  | nil => rfl
  | cons a as ih =>
      simp only [labels, watch]
      cases hs : step p.1 a with
      | none => rfl
      | some t => exact congrArg (label p.1 a ++ ·) (ih (t, note p.2 p.1 a))

end Views

/-- A watched run is a run. -/
theorem run_of_watch {note : μ → σ → α → μ} {p p' : σ × μ} {as : List α}
    (hrun : run (watch step note) p as = some p') : run step p.1 as = some p'.1 := by
  induction as generalizing p with
  | nil =>
      rw [Option.some.inj hrun]
      rfl
  | cons a as ih =>
      obtain ⟨q, hq, hrest⟩ := run_cons_eq_some.mp hrun
      exact run_cons_eq_some.mpr ⟨q.1, (watch_eq_some.mp hq).1, ih hrest⟩

/-! ## Iterations bounded by a measure -/

/-- The state after `n` rounds, round `i` applying `next i`. -/
def iterate (next : Nat → σ → σ) (s : σ) : Nat → σ
  | 0 => s
  | n + 1 => next n (iterate next s n)

/-- An iteration whose rounds each finish or shrink a measure finishes. -/
theorem iterate_finishes {next : Nat → σ → σ} {Inv : σ → Prop} (Done : σ → Prop)
    (measure : σ → Nat)
    (hnext : ∀ i s, Inv s → Inv (next i s) ∧ (Done (next i s) ∨ measure (next i s) < measure s))
    {s : σ} (h : Inv s) :
    ∃ n, n ≤ measure s + 1 ∧ Inv (iterate next s n) ∧ Done (iterate next s n) := by
  by_contra hnot
  have shrink : ∀ n, n ≤ measure s + 1 →
      Inv (iterate next s n) ∧ measure (iterate next s n) + n ≤ measure s := by
    intro n
    induction n with
    | zero => exact fun _ => ⟨h, by simp [iterate]⟩
    | succ n ih =>
        intro hn
        obtain ⟨hi, hm⟩ := ih (by omega)
        obtain ⟨hi', hround⟩ := hnext n _ hi
        rcases hround with hdone | hlt
        · exact absurd ⟨n + 1, hn, hi', hdone⟩ hnot
        · exact ⟨hi', by simp only [iterate]; omega⟩
  have hbound := (shrink (measure s + 1) (Nat.le_refl _)).2
  omega

/-! ## Running until stuck -/

/-- The state that `next` leads to, as far as the fuel goes. -/
def exhaust (next : σ → Option σ) : Nat → σ → σ
  | 0, s => s
  | fuel + 1, s =>
      match next s with
      | some s' => exhaust next fuel s'
      | none => s

/-- With a shrinking measure as fuel the run gets stuck. -/
theorem exhaust_stuck {next : σ → Option σ} (measure : σ → Nat)
    (hnext : ∀ s s', next s = some s' → measure s' < measure s) {fuel : Nat} {s : σ}
    (h : measure s ≤ fuel) : next (exhaust next fuel s) = none := by
  induction fuel generalizing s with
  | zero =>
      cases hs : next s with
      | none => exact hs
      | some s' =>
          have := hnext s s' hs
          omega
  | succ fuel ih =>
      cases hs : next s with
      | none => simp only [exhaust, hs]
      | some s' =>
          have := hnext s s' hs
          simpa only [exhaust, hs] using ih (s := s') (by omega)

theorem exhaust_invariant {next : σ → Option σ} {Inv : σ → Prop}
    (hnext : ∀ s s', Inv s → next s = some s' → Inv s') {s : σ} (h : Inv s) (fuel : Nat) :
    Inv (exhaust next fuel s) := by
  induction fuel generalizing s with
  | zero => exact h
  | succ fuel ih =>
      cases hs : next s with
      | none => simpa only [exhaust, hs] using h
      | some s' => simpa only [exhaust, hs] using ih (hnext s s' h hs)

end Acva.Runs

import Mathlib.Logic.Relation

/-! # While loops

The test comes before each round, and a round goes on or leaves the loop with a result.
The fuel counts the rounds that are begun, so that a loop which finishes with `n` of it
has begun at most `n` rounds. A measure bounds a loop; a set of states that every round
leads back to shows that it never ends.
-/

namespace Acva.Loops

variable {σ ρ : Type*}

/-- `none` when the fuel is used up. The body goes on with `ok` and leaves with `error`. -/
def whileLoop (test : σ → Bool) (body : σ → Except ρ σ) : Nat → σ → Option (Except ρ σ)
  | 0, s => if test s = true then none else some (.ok s)
  | fuel + 1, s =>
      if test s = true then
        match body s with
        | .ok s' => whileLoop test body fuel s'
        | .error r => some (.error r)
      else some (.ok s)

/-- A round that goes on. -/
def Passes (test : σ → Bool) (body : σ → Except ρ σ) (s s' : σ) : Prop :=
  test s = true ∧ body s = .ok s'

/-- The states before a test. -/
def Reaches (test : σ → Bool) (body : σ → Except ρ σ) : σ → σ → Prop :=
  Relation.ReflTransGen (Passes test body)

variable {test : σ → Bool} {body : σ → Except ρ σ} {s s' : σ}

theorem whileLoop_succ_of_passes (h : Passes test body s s') (fuel : Nat) :
    whileLoop test body (fuel + 1) s = whileLoop test body fuel s' := by
  simp only [whileLoop, if_pos h.1, h.2]

theorem whileLoop_zero_of_passes (h : Passes test body s s') :
    whileLoop test body 0 s = none := if_pos h.1

/-- A result comes from a test that fails or from a round that leaves. -/
theorem reaches_of_whileLoop {fuel : Nat} {r : Except ρ σ}
    (h : whileLoop test body fuel s = some r) :
    ∃ t, Reaches test body s t ∧
      (test t = false ∧ r = .ok t ∨ ∃ e, body t = .error e ∧ test t = true ∧ r = .error e) := by
  induction fuel generalizing s with
  | zero =>
      simp only [whileLoop] at h
      split at h
      · cases h
      next htest => exact ⟨s, .refl, .inl ⟨by simpa using htest, (Option.some.inj h).symm⟩⟩
  | succ fuel ih =>
      unfold whileLoop at h
      split at h
      next htest =>
        split at h
        next t hbody =>
          obtain ⟨u, hreach, hleft⟩ := ih h
          exact ⟨u, .head ⟨htest, hbody⟩ hreach, hleft⟩
        next e hbody => exact ⟨s, .refl, .inr ⟨e, hbody, htest, (Option.some.inj h).symm⟩⟩
      next htest => exact ⟨s, .refl, .inl ⟨by simpa using htest, (Option.some.inj h).symm⟩⟩

/-! ## Loops that end -/

/-- Each round takes something off a measure that is positive when it begins. -/
theorem whileLoop_isSome_of_measure (measure : σ → Nat)
    (hpos : ∀ t, Reaches test body s t → test t = true → 0 < measure t)
    (hround : ∀ t t', Reaches test body s t → Passes test body t t' → measure t' < measure t)
    {fuel : Nat} (hfuel : measure s ≤ fuel) : (whileLoop test body fuel s).isSome := by
  induction fuel generalizing s with
  | zero =>
      have hstop : ¬test s = true := by
        intro htest
        have := hpos s .refl htest
        omega
      simp only [whileLoop, if_neg hstop, Option.isSome_some]
  | succ fuel ih =>
      unfold whileLoop
      split
      next htest =>
        split
        next t hbody =>
          have hpass : Passes test body s t := ⟨htest, hbody⟩
          have hlater : ∀ u, Reaches test body t u → Reaches test body s u :=
            fun u hu => .head hpass hu
          have hless := hround s t .refl hpass
          exact ih (fun u hu => hpos u (hlater u hu)) (fun u u' hu => hround u u' (hlater u hu))
            (by omega)
        next => rfl
      next => rfl

/-! ## Loops that do not -/

/-- Every round leads back into the set. -/
theorem whileLoop_eq_none (Stuck : σ → Prop)
    (hstuck : ∀ t, Stuck t → ∃ t', Passes test body t t' ∧ Stuck t') (hs : Stuck s) (fuel : Nat) :
    whileLoop test body fuel s = none := by
  induction fuel generalizing s with
  | zero =>
      obtain ⟨t, hpass, -⟩ := hstuck s hs
      exact whileLoop_zero_of_passes hpass
  | succ fuel ih =>
      obtain ⟨t, hpass, ht⟩ := hstuck s hs
      rw [whileLoop_succ_of_passes hpass]
      exact ih ht

/-- A loop that reaches a state from which it does not end, does not end. -/
theorem whileLoop_eq_none_of_reaches (hreach : Reaches test body s s')
    (hnone : ∀ fuel, whileLoop test body fuel s' = none) (fuel : Nat) :
    whileLoop test body fuel s = none := by
  induction hreach using Relation.ReflTransGen.head_induction_on generalizing fuel with
  | refl => exact hnone fuel
  | head hpass _ ih =>
      cases fuel with
      | zero => exact whileLoop_zero_of_passes hpass
      | succ fuel =>
          rw [whileLoop_succ_of_passes hpass]
          exact ih fuel

end Acva.Loops

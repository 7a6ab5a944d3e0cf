import Mathlib.Data.List.Nodup
import Mathlib.Logic.Function.Basic

/-! # Things in places

Each thing is in one place at most, and there once, while things are put down, taken
up and moved between places.
-/

namespace Acva.Places

variable {κ α : Type*} {f : κ → List α} {x y : α} {p : κ} {rest : List α}

structure Distinct (f : κ → List α) : Prop where
  nodup : ∀ p, (f p).Nodup
  apart : ∀ p p' x, x ∈ f p → x ∈ f p' → p = p'

def Somewhere (f : κ → List α) (x : α) : Prop := ∃ p, x ∈ f p

theorem distinct_of_empty (h : ∀ p, f p = []) : Distinct f := by
  refine ⟨fun p => ?_, fun p p' x hx => ?_⟩
  · rw [h p]
    exact List.nodup_nil
  · rw [h p] at hx
    cases hx

variable [DecidableEq κ]

theorem mem_put : y ∈ Function.update f p (f p ++ [x]) p ↔ y ∈ f p ∨ y = x := by
  rw [Function.update_self, List.mem_append, List.mem_singleton]

theorem somewhere_put : Somewhere (Function.update f p (f p ++ [x])) y ↔ y = x ∨ Somewhere f y := by
  constructor
  · rintro ⟨p', hp'⟩
    by_cases h : p' = p
    · subst h
      rcases mem_put.mp hp' with hold | hnew
      · exact .inr ⟨p', hold⟩
      · exact .inl hnew
    · rw [Function.update_of_ne h] at hp'
      exact .inr ⟨p', hp'⟩
  · rintro (rfl | ⟨p', hp'⟩)
    · exact ⟨p, mem_put.mpr (.inr rfl)⟩
    · by_cases h : p' = p
      · subst h
        exact ⟨p', mem_put.mpr (.inl hp')⟩
      · exact ⟨p', by rwa [Function.update_of_ne h]⟩

/-- Put a thing down that is nowhere. -/
theorem Distinct.put (h : Distinct f) (hx : ¬ Somewhere f x) (p : κ) :
    Distinct (Function.update f p (f p ++ [x])) := by
  have hwhere : ∀ p' y, y ∈ Function.update f p (f p ++ [x]) p' →
      (p' = p ∧ y = x) ∨ (y ∈ f p' ∧ y ≠ x) := by
    intro p' y hy
    by_cases hp : p' = p
    · subst hp
      rcases mem_put.mp hy with hold | rfl
      · exact .inr ⟨hold, fun he => hx ⟨p', he ▸ hold⟩⟩
      · exact .inl ⟨rfl, rfl⟩
    · rw [Function.update_of_ne hp] at hy
      exact .inr ⟨hy, fun he => hx ⟨p', he ▸ hy⟩⟩
  refine ⟨fun p' => ?_, fun p₁ p₂ y h₁ h₂ => ?_⟩
  · by_cases hp : p' = p
    · subst hp
      rw [Function.update_self]
      refine (h.nodup p').append (List.nodup_singleton x) ?_
      intro y hy hy'
      rw [List.mem_singleton.mp hy'] at hy
      exact hx ⟨p', hy⟩
    · rw [Function.update_of_ne hp]
      exact h.nodup p'
  · rcases hwhere p₁ y h₁ with ⟨rfl, rfl⟩ | ⟨hold₁, hne⟩
    · rcases hwhere p₂ y h₂ with ⟨rfl, -⟩ | ⟨-, hne⟩
      · rfl
      · exact absurd rfl hne
    · rcases hwhere p₂ y h₂ with ⟨-, he⟩ | ⟨hold₂, -⟩
      · exact absurd he hne
      · exact h.apart p₁ p₂ y hold₁ hold₂

theorem somewhere_of_take (hp : f p = x :: rest) (hy : Somewhere (Function.update f p rest) y) :
    Somewhere f y := by
  obtain ⟨p', hp'⟩ := hy
  by_cases h : p' = p
  · subst h
    rw [Function.update_self] at hp'
    exact ⟨p', hp ▸ List.mem_cons_of_mem x hp'⟩
  · rw [Function.update_of_ne h] at hp'
    exact ⟨p', hp'⟩

/-- Take a thing up: it is nowhere then. -/
theorem Distinct.take (h : Distinct f) (hp : f p = x :: rest) :
    Distinct (Function.update f p rest) ∧ ¬ Somewhere (Function.update f p rest) x := by
  have hnodup := h.nodup p
  rw [hp, List.nodup_cons] at hnodup
  have hkeeps : ∀ p' y, y ∈ Function.update f p rest p' → y ∈ f p' := by
    intro p' y hy
    by_cases hp' : p' = p
    · subst hp'
      rw [Function.update_self] at hy
      exact hp ▸ List.mem_cons_of_mem x hy
    · rwa [Function.update_of_ne hp'] at hy
  refine ⟨⟨fun p' => ?_, fun p₁ p₂ y h₁ h₂ => ?_⟩, ?_⟩
  · by_cases hp' : p' = p
    · subst hp'
      rw [Function.update_self]
      exact hnodup.2
    · rw [Function.update_of_ne hp']
      exact h.nodup p'
  · exact h.apart p₁ p₂ y (hkeeps p₁ y h₁) (hkeeps p₂ y h₂)
  · rintro ⟨p', hx⟩
    have he : p' = p := h.apart p' p x (hkeeps p' x hx) (hp ▸ List.mem_cons_self)
    subst he
    rw [Function.update_self] at hx
    exact hnodup.1 hx

end Acva.Places

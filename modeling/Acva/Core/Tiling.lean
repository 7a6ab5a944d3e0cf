import Mathlib.Data.List.Induction
import Mathlib.Order.Lattice

/-! # Ranges that follow each other

Things come one after the other, each with its owner and a range of whole numbers. The
ranges tile a line for each owner where each begins right after the largest end so far
of the same owner.
-/

namespace Acva.Tiling

variable {α κ : Type*} [DecidableEq κ] {owner : α → κ} {lo hi : α → Int} {xs : List α} {x : α}

/-- Where the next range of `k` begins: at 1 if there is none yet. -/
def nextStart (owner : α → κ) (hi : α → Int) (k : κ) (xs : List α) : Int :=
  (((xs.filter fun x => owner x = k).map hi).max?.map (· + 1)).getD 1

/-- Each range begins where it should when it comes. -/
def Contiguous (owner : α → κ) (lo hi : α → Int) (xs : List α) : Prop :=
  ∀ earlier x later, xs = earlier ++ x :: later → lo x = nextStart owner hi (owner x) earlier

theorem contiguous_nil : Contiguous owner lo hi [] := by
  rintro earlier x later h
  cases earlier <;> cases h

/-- What comes last decides for itself alone. -/
theorem contiguous_concat : Contiguous owner lo hi (xs ++ [x]) ↔
    Contiguous owner lo hi xs ∧ lo x = nextStart owner hi (owner x) xs := by
  constructor
  · intro h
    refine ⟨fun earlier y later hxs => h earlier y (later ++ [x]) ?_, h xs x [] rfl⟩
    rw [hxs, List.append_assoc, List.cons_append]
  · rintro ⟨hxs, hx⟩ earlier y later heq
    rcases List.eq_nil_or_concat later with rfl | ⟨later, z, rfl⟩
    · obtain ⟨rfl, hlast⟩ := List.append_inj' heq rfl
      cases hlast
      exact hx
    · have hsplit : xs ++ [x] = (earlier ++ y :: later) ++ [z] := by simpa using heq
      exact hxs earlier y later (List.append_inj' hsplit rfl).1

theorem nextStart_eq_one {k : κ} (h : ∀ x ∈ xs, owner x ≠ k) : nextStart owner hi k xs = 1 := by
  have hnone : xs.filter (fun x => owner x = k) = [] :=
    List.filter_eq_nil_iff.mpr fun x hx => by simpa using h x hx
  rw [nextStart, hnone]
  rfl

/-- The next range of an owner begins after the largest of its ends. -/
theorem nextStart_of_max {k : κ} {last : Int} (hlast : ∃ x ∈ xs, owner x = k ∧ hi x = last)
    (hmax : ∀ x ∈ xs, owner x = k → hi x ≤ last) : nextStart owner hi k xs = last + 1 := by
  have hsome : ((xs.filter fun x => owner x = k).map hi).max? = some last := by
    refine List.max?_eq_some_iff.mpr ⟨?_, fun b hb => ?_⟩
    · obtain ⟨x, hx, howner, rfl⟩ := hlast
      exact List.mem_map_of_mem (List.mem_filter.mpr ⟨hx, by simpa using howner⟩)
    · obtain ⟨x, hx, rfl⟩ := List.mem_map.mp hb
      obtain ⟨hx, howner⟩ := List.mem_filter.mp hx
      exact hmax x hx (by simpa using howner)
  rw [nextStart, hsome]
  rfl

theorem lt_nextStart (hx : x ∈ xs) : hi x < nextStart owner hi (owner x) xs := by
  have hmem : hi x ∈ (xs.filter fun y => owner y = owner x).map hi :=
    List.mem_map_of_mem (List.mem_filter.mpr ⟨hx, by simp⟩)
  obtain ⟨last, hlast⟩ := Option.isSome_iff_exists.mp (List.isSome_max?_of_mem hmem)
  have hle : hi x ≤ last := (List.max?_eq_some_iff.mp hlast).2 _ hmem
  rw [nextStart, hlast]
  exact Int.lt_add_one_of_le hle

/-- Ranges of one owner do not meet. -/
theorem Contiguous.pairwise (h : Contiguous owner lo hi xs) :
    xs.Pairwise fun a b => owner a = owner b → hi a < lo b := by
  induction xs using List.reverseRecOn with
  | nil => exact List.Pairwise.nil
  | append_singleton xs x ih =>
      obtain ⟨hxs, hx⟩ := contiguous_concat.mp h
      refine List.pairwise_append.mpr ⟨ih hxs, List.pairwise_singleton _ _, ?_⟩
      intro a ha b hb howner
      rw [List.mem_singleton.mp hb] at howner ⊢
      rw [hx, ← howner]
      exact lt_nextStart ha

end Acva.Tiling

import Mathlib.Data.List.Basic
import Mathlib.Logic.ExistsUnique
import Mathlib.Logic.Function.Basic

/-! # FNV-1a

The 64-bit hash goes through a text byte by byte. Each step can be undone: the exclusive or
by itself, and the multiplication since the prime is odd. So two runs over one text agree
only if they began alike, and what comes before a text matters to its hash exactly if it
moves the state.
-/

namespace Acva.Fnv

/-- Two lists of one length that differ at one place agree before and after it. -/
theorem split_at_difference {α : Type*} {s t : List α} (hlen : s.length = t.length)
    (hone : ∃! i : Nat, s[i]? ≠ t[i]?) :
    ∃ p a b q, a ≠ b ∧ s = p ++ a :: q ∧ t = p ++ b :: q := by
  obtain ⟨i, hdiff, honly⟩ := hone
  have hsame : ∀ j, j ≠ i → s[j]? = t[j]? := fun j hj => by
    by_contra hne
    exact hj (honly j hne)
  have his : i < s.length := by
    by_contra hout
    exact hdiff (by rw [List.getElem?_eq_none (by omega), List.getElem?_eq_none (by omega)])
  have hit : i < t.length := hlen ▸ his
  have htake : s.take i = t.take i := by
    apply List.ext_getElem?
    intro j
    rw [List.getElem?_take, List.getElem?_take]
    split
    · exact hsame j (by omega)
    · rfl
  have hdrop : s.drop (i + 1) = t.drop (i + 1) := by
    apply List.ext_getElem?
    intro j
    rw [List.getElem?_drop, List.getElem?_drop]
    exact hsame _ (by omega)
  refine ⟨s.take i, s[i], t[i], s.drop (i + 1), fun heq => hdiff ?_, ?_, ?_⟩
  · rw [List.getElem?_eq_getElem his, List.getElem?_eq_getElem hit, heq]
  · rw [List.getElem_cons_drop, List.take_append_drop]
  · rw [htake, hdrop, List.getElem_cons_drop, List.take_append_drop]

/-- Steps that can be undone make a run that can be undone. -/
theorem foldl_injective {σ α : Type*} {step : σ → α → σ}
    (h : ∀ a, Function.Injective fun s => step s a) (as : List α) :
    Function.Injective fun s => as.foldl step s := by
  induction as with
  | nil => exact fun s s' hs => hs
  | cons a as ih => exact fun s s' hs => h a (ih hs)

/-- Where a step tells the letters apart too, a run sees every single change. -/
theorem foldl_ne_of_one_difference {σ α : Type*} {step : σ → α → σ}
    (hstate : ∀ a, Function.Injective fun s => step s a)
    (hletter : ∀ s, Function.Injective (step s)) (s : σ) {as bs : List α}
    (hlen : as.length = bs.length) (hone : ∃! i : Nat, as[i]? ≠ bs[i]?) :
    as.foldl step s ≠ bs.foldl step s := by
  obtain ⟨p, a, b, q, hne, rfl, rfl⟩ := split_at_difference hlen hone
  rw [List.foldl_append, List.foldl_append, List.foldl_cons, List.foldl_cons]
  intro heq
  -- the common end is undone, then the one step that differs
  exact hne (hletter _ (foldl_injective hstate q heq))

def offsetBasis : UInt64 := 0xcbf29ce484222325

def prime : UInt64 := 0x100000001b3

def step (h : UInt64) (c : UInt8) : UInt64 := (h ^^^ c.toUInt64) * prime

/-- The inverse of the prime modulo `2 ^ 64`. -/
theorem prime_mul_inverse : prime * 0xce965057aff6957b = 1 := by decide

theorem mul_prime_injective : Function.Injective fun h : UInt64 => h * prime := by
  intro h h' heq
  have hundone := congrArg (· * 0xce965057aff6957b) heq
  simpa only [UInt64.mul_assoc, prime_mul_inverse, UInt64.mul_one] using hundone

theorem step_injective (c : UInt8) : Function.Injective fun h => step h c := by
  intro h h' heq
  have hxor : h ^^^ c.toUInt64 = h' ^^^ c.toUInt64 := mul_prime_injective heq
  have hundone := congrArg (· ^^^ c.toUInt64) hxor
  simpa only [UInt64.xor_assoc, UInt64.xor_self, UInt64.xor_zero] using hundone

theorem step_byte_injective (h : UInt64) : Function.Injective (step h) := by
  intro c c' heq
  have hxor : h ^^^ c.toUInt64 = h ^^^ c'.toUInt64 := mul_prime_injective heq
  have hundone := congrArg (h ^^^ ·) hxor
  have hword : c.toUInt64 = c'.toUInt64 := by
    simpa only [← UInt64.xor_assoc, UInt64.xor_self, UInt64.zero_xor] using hundone
  exact UInt8.toNat_inj.mp (congrArg UInt64.toNat hword)

def hashFrom (h : UInt64) (s : List UInt8) : UInt64 := s.foldl step h

theorem hashFrom_append (h : UInt64) (s t : List UInt8) :
    hashFrom h (s ++ t) = hashFrom (hashFrom h s) t := List.foldl_append

/-- A text can be put before another without a trace only if it leads back to the state. -/
theorem hashFrom_append_eq_iff (h : UInt64) (s t : List UInt8) :
    hashFrom h (s ++ t) = hashFrom h t ↔ hashFrom h s = h := by
  rw [hashFrom_append]
  exact (foldl_injective step_injective t).eq_iff

theorem hashFrom_ne_of_one_difference (h : UInt64) {s t : List UInt8}
    (hlen : s.length = t.length) (hone : ∃! i : Nat, s[i]? ≠ t[i]?) : hashFrom h s ≠ hashFrom h t :=
  foldl_ne_of_one_difference step_injective step_byte_injective h hlen hone

end Acva.Fnv

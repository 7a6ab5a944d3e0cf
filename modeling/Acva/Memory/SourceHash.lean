import Acva.Core.Fnv
import Acva.Memory.Repository

/-! # The source hash of a summary

A summary carries a hash of the turns it was made from: 64-bit FNV-1a over a text
block with one line a turn.
-/

namespace Acva.Memory

/-- The limit that the summarizer and its hash read a session with. -/
def kSessionLimit : Int := 100000

def hexDigit (n : UInt64) : Char := (Nat.digitChar n.toNat)

/-- `{:016x}`. -/
def hex16 (h : UInt64) : Bytes :=
  (List.range 16).map fun i => byte (hexDigit ((h >>> (60 - 4 * i).toUInt64) &&& 15))

def fnv1a64 (s : Bytes) : Bytes :=
  hex16 (s.foldl (fun h c => (h ^^^ c.toUInt64) * 0x100000001b3) 0xcbf29ce484222325)

theorem fnv1a64_eq (s : Bytes) : fnv1a64 s = hex16 (Fnv.hashFrom Fnv.offsetBasis s) := rfl

/-- The lines that are hashed. -/
def sourceText (rangeStart rangeEnd : Int) (turns : List TurnRow) : Bytes :=
  (turns.filter fun t => ¬ ((t.id : Int) < rangeStart ∨ rangeEnd < t.id)).flatMap fun t =>
    ascii (toString t.id) ++ ascii "|" ++ t.text.getD [] ++ ascii "\n"

/-- Where the read fails the hash is empty. -/
def computeSourceHash (turnsOk : Bool) (session : SessionId) (rangeStart rangeEnd : Int)
    (repo : Repository) : Bytes :=
  if turnsOk = true then
    fnv1a64 (sourceText rangeStart rangeEnd (repo.turns.recentTurns session kSessionLimit))
  else []

/-- Whether the turns are no longer those the summary was made from, as far as the hash tells; an
empty one is no evidence. -/
def SummaryRow.isStale (current : Bytes) (s : SummaryRow) : Bool :=
  current ≠ [] ∧ current ≠ s.sourceHash

/-- The FNV-1a hash of the empty text is its offset basis. -/
example : fnv1a64 [] = ascii "cbf29ce484222325" := by decide

/-! ## Digits -/

theorem hexDigit_injective {a b : UInt64} (ha : a.toNat < 16) (hb : b.toNat < 16)
    (h : byte (hexDigit a) = byte (hexDigit b)) : a = b := by
  have hall : ∀ m < 16, ∀ n < 16, byte (Nat.digitChar m) = byte (Nat.digitChar n) → m = n := by
    decide
  exact UInt64.toNat_inj.mp (hall _ ha _ hb h)

/-- A word is made of its sixteen digits. -/
theorem eq_of_digits {a b : UInt64}
    (h : ∀ i : Nat, i < 16 →
      (a >>> (60 - 4 * i).toUInt64) &&& 15 = (b >>> (60 - 4 * i).toUInt64) &&& 15) : a = b := by
  apply UInt64.toNat_inj.mp
  apply Nat.eq_of_testBit_eq
  intro k
  by_cases hk : k < 64
  · -- bit `k` is in the digit that is shifted by `4 * (k / 4)`
    have hdigit := congrArg UInt64.toNat (h (15 - k / 4) (by omega))
    have hshift : ((60 - 4 * (15 - k / 4)).toUInt64).toNat = 4 * (k / 4) := by
      show (60 - 4 * (15 - k / 4)) % 2 ^ 64 = 4 * (k / 4)
      omega
    rw [UInt64.toNat_and, UInt64.toNat_and, UInt64.toNat_shiftRight, UInt64.toNat_shiftRight,
      hshift, Nat.mod_eq_of_lt (show 4 * (k / 4) < 64 by omega)] at hdigit
    have hbit := congrArg (fun n => n.testBit (k % 4)) hdigit
    have hmask : Nat.testBit 15 (k % 4) = true := by
      have hall : ∀ r < 4, Nat.testBit 15 r = true := by decide
      exact hall _ (Nat.mod_lt _ (by decide))
    simpa [Nat.testBit_and, Nat.testBit_shiftRight, hmask, Nat.div_add_mod] using hbit
  · have hlarge : ∀ n : UInt64, n.toNat.testBit k = false := fun n =>
      Nat.testBit_lt_two_pow
        (Nat.lt_of_lt_of_le n.toNat_lt (Nat.pow_le_pow_right (by decide) (by omega)))
    rw [hlarge, hlarge]

theorem hex16_injective : Function.Injective hex16 := by
  intro a b h
  refine eq_of_digits fun i hi => ?_
  have hdigit := List.map_inj_left.mp h i (List.mem_range.mpr hi)
  have hlt : ∀ n : UInt64, (n &&& 15).toNat < 16 := by
    intro n
    rw [UInt64.toNat_and]
    exact Nat.lt_succ_of_le Nat.and_le_right
  exact hexDigit_injective (hlt _) (hlt _) hdigit

theorem length_hex16 (h : UInt64) : (hex16 h).length = 16 := by
  rw [hex16, List.length_map, List.length_range]

/-- Lines put before a text do not show in its hash only if they hash like no text at all. -/
theorem fnv1a64_append_eq_iff (s t : Bytes) :
    fnv1a64 (s ++ t) = fnv1a64 t ↔ fnv1a64 s = fnv1a64 [] := by
  simp only [fnv1a64_eq, hex16_injective.eq_iff]
  exact Fnv.hashFrom_append_eq_iff _ _ _

/-- A change of one byte shows in the hash and in its digits. -/
theorem fnv1a64_ne_of_one_byte (s t : Bytes) (hlen : s.length = t.length)
    (hone : ∃! i : Nat, s[i]? ≠ t[i]?) :
    Fnv.hashFrom Fnv.offsetBasis s ≠ Fnv.hashFrom Fnv.offsetBasis t ∧
      (fnv1a64 s).length = 16 ∧ (fnv1a64 t).length = 16 ∧ fnv1a64 s ≠ fnv1a64 t := by
  have hvalue := Fnv.hashFrom_ne_of_one_difference Fnv.offsetBasis hlen hone
  refine ⟨hvalue, length_hex16 _, length_hex16 _, ?_⟩
  rw [fnv1a64_eq, fnv1a64_eq]
  exact hex16_injective.ne hvalue

theorem fnv1a64_ne_of_one_byte_last :
    Fnv.hashFrom Fnv.offsetBasis (ascii "1|hi\n") ≠ Fnv.hashFrom Fnv.offsetBasis (ascii "1|ho\n") ∧
      (fnv1a64 (ascii "1|hi\n")).length = 16 ∧ (fnv1a64 (ascii "1|ho\n")).length = 16 ∧
      fnv1a64 (ascii "1|hi\n") ≠ fnv1a64 (ascii "1|ho\n") := by
  refine fnv1a64_ne_of_one_byte _ _ (by decide) ⟨3, by decide, fun j hj => ?_⟩
  by_contra hne
  have hagree : ∀ k < 5, k ≠ 3 → (ascii "1|hi\n")[k]? = (ascii "1|ho\n")[k]? := by decide
  by_cases hin : j < 5
  · exact hj (hagree j hin hne)
  · refine hj ?_
    rw [List.getElem?_eq_none (show (ascii "1|hi\n").length ≤ j from Nat.not_lt.mp hin),
      List.getElem?_eq_none (show (ascii "1|ho\n").length ≤ j from Nat.not_lt.mp hin)]

end Acva.Memory

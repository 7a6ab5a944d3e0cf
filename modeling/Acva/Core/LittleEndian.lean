import Mathlib.Data.Nat.Bitwise

/-! # Little-endian words

A word is cut into octets, the low one first, and put together again by shifts. Octets that
are shifted apart do not overlap, so that the disjunction is a sum.
-/

namespace Acva.LittleEndian

theorem shiftLeft_or {b i : Nat} (h : b < 2 ^ i) (a : Nat) : a <<< i ||| b = a * 2 ^ i + b := by
  rw [← Nat.shiftLeft_add_eq_or_of_lt h, Nat.shiftLeft_eq]

theorem or_shiftLeft {b i : Nat} (h : b < 2 ^ i) (a : Nat) : b ||| a <<< i = b + a * 2 ^ i := by
  rw [Nat.or_comm, shiftLeft_or h, Nat.add_comm]

theorem and_low (x i : Nat) : x &&& 2 ^ i - 1 = x % 2 ^ i := Nat.and_two_pow_sub_one_eq_mod x i

/-! ## Octets of a word -/

theorem toNat_octet16 (v : UInt16) : (v &&& 0xFF).toUInt8.toNat = v.toNat % 256 := by
  have hmask : v.toNat &&& 255 = v.toNat % 256 := and_low _ 8
  have hff : (0xFF : UInt16).toNat = 255 := rfl
  rw [UInt16.toNat_toUInt8, UInt16.toNat_and, hff, hmask]
  omega

theorem toNat_octet32 (v : UInt32) : (v &&& 0xFF).toUInt8.toNat = v.toNat % 256 := by
  have hmask : v.toNat &&& 255 = v.toNat % 256 := and_low _ 8
  have hff : (0xFF : UInt32).toNat = 255 := rfl
  rw [UInt32.toNat_toUInt8, UInt32.toNat_and, hff, hmask]
  omega

theorem toNat_word16 (lo hi : UInt8) :
    (lo.toUInt16 ||| hi.toUInt16 <<< 8).toNat = lo.toNat + hi.toNat * 256 := by
  have hlo := lo.toNat_lt
  have hhi := hi.toNat_lt
  have hshift : (hi.toUInt16 <<< 8).toNat = hi.toNat <<< 8 := by
    simp only [UInt16.toNat_shiftLeft, UInt8.toNat_toUInt16, UInt16.reduceToNat,
      Nat.shiftLeft_eq, Nat.reduceMod, Nat.reducePow]
    omega
  rw [UInt16.toNat_or, hshift, UInt8.toNat_toUInt16]
  exact or_shiftLeft (by omega) _

theorem toNat_word32 (b₀ b₁ b₂ b₃ : UInt8) :
    (b₀.toUInt32 ||| b₁.toUInt32 <<< 8 ||| b₂.toUInt32 <<< 16 ||| b₃.toUInt32 <<< 24).toNat =
      b₀.toNat + b₁.toNat * 256 + b₂.toNat * 65536 + b₃.toNat * 16777216 := by
  have h₀ := b₀.toNat_lt
  have h₁ := b₁.toNat_lt
  have h₂ := b₂.toNat_lt
  have h₃ := b₃.toNat_lt
  have hlow : b₀.toNat ||| b₁.toNat <<< 8 = b₀.toNat + b₁.toNat * 256 :=
    or_shiftLeft (by omega) _
  have hmid : b₀.toNat + b₁.toNat * 256 ||| b₂.toNat <<< 16 =
      b₀.toNat + b₁.toNat * 256 + b₂.toNat * 65536 := or_shiftLeft (by omega) _
  have hall : b₀.toNat + b₁.toNat * 256 + b₂.toNat * 65536 ||| b₃.toNat <<< 24 =
      b₀.toNat + b₁.toNat * 256 + b₂.toNat * 65536 + b₃.toNat * 16777216 :=
    or_shiftLeft (by omega) _
  rw [← hall, ← hmid, ← hlow]
  simp only [UInt32.toNat_or, UInt32.toNat_shiftLeft, UInt8.toNat_toUInt32, UInt32.reduceToNat,
    Nat.shiftLeft_eq, Nat.reduceMod, Nat.reducePow]
  congr <;> omega

/-! ## Words put together again -/

theorem word16_of_octets (v : UInt16) :
    (v &&& 0xFF).toUInt8.toUInt16 ||| ((v >>> 8) &&& 0xFF).toUInt8.toUInt16 <<< 8 = v := by
  have hlt := v.toNat_lt
  have hhigh : (v >>> 8).toNat = v.toNat / 256 := by
    rw [UInt16.toNat_shiftRight]
    exact Nat.shiftRight_eq_div_pow _ 8
  apply UInt16.toNat_inj.mp
  rw [toNat_word16, toNat_octet16, toNat_octet16, hhigh]
  omega

theorem word32_of_octets (v : UInt32) :
    (v &&& 0xFF).toUInt8.toUInt32 ||| ((v >>> 8) &&& 0xFF).toUInt8.toUInt32 <<< 8 |||
      ((v >>> 16) &&& 0xFF).toUInt8.toUInt32 <<< 16 |||
      ((v >>> 24) &&& 0xFF).toUInt8.toUInt32 <<< 24 = v := by
  have hlt := v.toNat_lt
  have hhigh : ∀ i : UInt32, i.toNat < 32 → (v >>> i).toNat = v.toNat / 2 ^ i.toNat := by
    intro i hi
    rw [UInt32.toNat_shiftRight, Nat.mod_eq_of_lt hi, Nat.shiftRight_eq_div_pow]
  apply UInt32.toNat_inj.mp
  rw [toNat_word32, toNat_octet32, toNat_octet32, toNat_octet32, toNat_octet32,
    hhigh 8 (by decide), hhigh 16 (by decide), hhigh 24 (by decide)]
  simp only [UInt32.reduceToNat]
  omega

end Acva.LittleEndian

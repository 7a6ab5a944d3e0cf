import Acva.Core.LittleEndian
import Acva.Event.Event
import Mathlib.Algebra.Group.Nat.Defs

/-! # Base64

The encoder takes three bytes at a time, the decoder four characters. The decoder
leaves its loop at the first padded quadruple, wherever it stands.
-/

namespace Acva.Stt

open Acva.LittleEndian

def kBase64Alphabet : Bytes :=
  ascii "ABCDEFGHIJKLMNOPQRSTUVWXYZabcdefghijklmnopqrstuvwxyz0123456789+/"

/-- The padding character. -/
def kBase64Pad : UInt8 := byte '='

def base64Char (i : Nat) : UInt8 := kBase64Alphabet.getD i 0

/-- The lookup table; `none` is its -1. -/
def kBase64Lookup (c : UInt8) : Option Nat := kBase64Alphabet.findIdx? (· = c)

/-- One round of the encoder: a byte and the two that may follow it. -/
def encodeTriple (a : UInt8) (b c : Option UInt8) : Bytes :=
  let triple := a.toNat <<< 16 ||| (b.getD 0).toNat <<< 8 ||| (c.getD 0).toNat
  [base64Char (triple >>> 18 &&& 0x3F), base64Char (triple >>> 12 &&& 0x3F),
    if b.isSome = true then base64Char (triple >>> 6 &&& 0x3F) else kBase64Pad,
    if c.isSome = true then base64Char (triple &&& 0x3F) else kBase64Pad]

def base64Encode : Bytes → Bytes
  | [] => []
  | [a] => encodeTriple a none none
  | [a, b] => encodeTriple a (some b) none
  | a :: b :: c :: rest => encodeTriple a (some b) (some c) ++ base64Encode rest

/-- The decoder's loop. -/
def decodeQuads : Bytes → Option Bytes
  | aCh :: bCh :: cCh :: dCh :: rest =>
      match kBase64Lookup aCh, kBase64Lookup bCh with
      | some a, some b =>
          let triple := a <<< 18 ||| b <<< 12
          let first := (triple >>> 16 &&& 0xFF).toUInt8
          if cCh = kBase64Pad then
            if dCh ≠ kBase64Pad then none
            else if b &&& 0x0F ≠ 0 then none
            else some [first] -- the loop ends, whatever is left
          else
            match kBase64Lookup cCh with
            | none => none
            | some c =>
                let withC := triple ||| c <<< 6
                let second := (withC >>> 8 &&& 0xFF).toUInt8
                if dCh = kBase64Pad then
                  if c &&& 0x03 ≠ 0 then none else some [first, second]
                else
                  match kBase64Lookup dCh with
                  | none => none
                  | some d =>
                      let third := ((withC ||| d) &&& 0xFF).toUInt8
                      (decodeQuads rest).map ([first, second, third] ++ ·)
      | _, _ => none
  | _ => some []

def base64Decode (input : Bytes) : Option Bytes :=
  if input.length % 4 ≠ 0 then none else decodeQuads input

/-! ## Characters -/

theorem kBase64Lookup_base64Char {i : Nat} (h : i < 64) :
    kBase64Lookup (base64Char i) = some i := by
  have hall : ∀ i : Fin 64, kBase64Lookup (base64Char i) = some i.val := by decide +kernel
  exact hall ⟨i, h⟩

theorem kBase64Lookup_pad : kBase64Lookup kBase64Pad = none := by decide +kernel

theorem kBase64Lookup_eq_some {c : UInt8} {i : Nat} (h : kBase64Lookup c = some i) :
    i < 64 ∧ base64Char i = c := by
  obtain ⟨hlt, hc, -⟩ := List.findIdx?_eq_some_iff_getElem.mp h
  refine ⟨hlt, ?_⟩
  rw [base64Char, List.getD_eq_getElem?_getD, List.getElem?_eq_getElem hlt, Option.getD_some]
  exact of_decide_eq_true hc

/-! ## Sextets and octets -/

/-- Three octets are four sextets. -/
theorem octets_to_sextets {x y z : Nat} (hx : x < 256) (hy : y < 256) (hz : z < 256) :
    let triple := x <<< 16 ||| y <<< 8 ||| z
    triple >>> 18 &&& 0x3F = x / 4 ∧ triple >>> 12 &&& 0x3F = x % 4 * 16 + y / 16 ∧
      triple >>> 6 &&& 0x3F = y % 16 * 4 + z / 64 ∧ triple &&& 0x3F = z % 64 := by
  have hmask : ∀ n : Nat, n &&& 0x3F = n % 64 := fun n => and_low n 6
  have hlow : y <<< 8 ||| z = y * 256 + z := shiftLeft_or (by omega) y
  have htriple : x <<< 16 ||| y <<< 8 ||| z = x * 65536 + (y * 256 + z) := by
    rw [Nat.or_assoc, hlow]
    exact shiftLeft_or (by omega) x
  simp only [htriple, hmask, Nat.shiftRight_eq_div_pow]
  omega

/-- Four sextets are three octets. -/
theorem sextets_to_octets {a b c d : Nat} (ha : a < 64) (hb : b < 64) (hc : c < 64)
    (hd : d < 64) :
    let triple := a <<< 18 ||| b <<< 12
    let withC := triple ||| c <<< 6
    triple >>> 16 &&& 0xFF = a * 4 + b / 16 ∧ withC >>> 8 &&& 0xFF = b % 16 * 16 + c / 4 ∧
      (withC ||| d) &&& 0xFF = c % 4 * 64 + d := by
  have hmask : ∀ n : Nat, n &&& 0xFF = n % 256 := fun n => and_low n 8
  have hshift : ∀ n i : Nat, n <<< i = n * 2 ^ i := Nat.shiftLeft_eq
  have htriple : a <<< 18 ||| b <<< 12 = a * 2 ^ 18 + b * 2 ^ 12 := by
    rw [shiftLeft_or (by rw [hshift]; omega), hshift b]
  have hwithC : a <<< 18 ||| b <<< 12 ||| c <<< 6 = a * 2 ^ 18 + b * 2 ^ 12 + c * 2 ^ 6 := by
    have hbc : b <<< 12 ||| c <<< 6 = b * 2 ^ 12 + c * 2 ^ 6 := by
      rw [shiftLeft_or (by rw [hshift]; omega), hshift c]
    rw [Nat.or_assoc, hbc, shiftLeft_or (by omega)]
    omega
  have hwithD : a <<< 18 ||| b <<< 12 ||| c <<< 6 ||| d =
      a * 2 ^ 18 + b * 2 ^ 12 + c * 2 ^ 6 + d := by
    have hcd : c <<< 6 ||| d = c * 2 ^ 6 + d := shiftLeft_or (by omega) c
    have hbcd : b <<< 12 ||| (c <<< 6 ||| d) = b * 2 ^ 12 + (c * 2 ^ 6 + d) := by
      rw [hcd, shiftLeft_or (by omega)]
    rw [Nat.or_assoc, Nat.or_assoc, hbcd, shiftLeft_or (by omega)]
    omega
  refine ⟨?_, ?_, ?_⟩
  · rw [htriple, hmask, Nat.shiftRight_eq_div_pow]
    omega
  · rw [hwithC, hmask, Nat.shiftRight_eq_div_pow]
    omega
  · rw [hwithD, hmask]
    omega

/-- The four characters of a round, in plain arithmetic. -/
theorem encodeTriple_eq (a : UInt8) (b c : Option UInt8) :
    encodeTriple a b c =
      [base64Char (a.toNat / 4), base64Char (a.toNat % 4 * 16 + (b.getD 0).toNat / 16),
        if b.isSome = true then base64Char ((b.getD 0).toNat % 16 * 4 + (c.getD 0).toNat / 64)
        else kBase64Pad,
        if c.isSome = true then base64Char ((c.getD 0).toNat % 64) else kBase64Pad] := by
  obtain ⟨h0, h1, h2, h3⟩ := octets_to_sextets a.toNat_lt (b.getD 0).toNat_lt (c.getD 0).toNat_lt
  rw [encodeTriple, h0, h1, h2, h3]

theorem base64Encode_one (x : UInt8) :
    base64Encode [x] =
      [base64Char (x.toNat / 4), base64Char (x.toNat % 4 * 16), kBase64Pad, kBase64Pad] :=
  encodeTriple_eq x none none

theorem base64Encode_two (x y : UInt8) :
    base64Encode [x, y] =
      [base64Char (x.toNat / 4), base64Char (x.toNat % 4 * 16 + y.toNat / 16),
        base64Char (y.toNat % 16 * 4), kBase64Pad] :=
  encodeTriple_eq x (some y) none

theorem base64Encode_three (x y z : UInt8) (rest : Bytes) :
    base64Encode (x :: y :: z :: rest) =
      base64Char (x.toNat / 4) :: base64Char (x.toNat % 4 * 16 + y.toNat / 16) ::
        base64Char (y.toNat % 16 * 4 + z.toNat / 64) :: base64Char (z.toNat % 64) ::
          base64Encode rest := by
  rw [base64Encode, encodeTriple_eq]
  rfl

section
variable {aCh bCh cCh dCh : UInt8} {a b c d : Nat} (rest : Bytes)
  (ha : kBase64Lookup aCh = some a) (hb : kBase64Lookup bCh = some b)

theorem ne_pad_of_lookup {ch : UInt8} {i : Nat} (h : kBase64Lookup ch = some i) :
    ch ≠ kBase64Pad := by
  intro hpad
  rw [hpad, kBase64Lookup_pad] at h
  cases h

include ha hb

/-- A round of the decoder that ends with two padding characters. -/
theorem decodeQuads_pad_pad :
    decodeQuads (aCh :: bCh :: kBase64Pad :: kBase64Pad :: rest) =
      if b % 16 ≠ 0 then none else some [(a * 4 + b / 16).toUInt8] := by
  have hmask : b &&& 0x0F = b % 16 := and_low b 4
  obtain ⟨hfirst, -, -⟩ := sextets_to_octets (kBase64Lookup_eq_some ha).1
    (kBase64Lookup_eq_some hb).1 (c := 0) (d := 0) (by decide) (by decide)
  simp only [decodeQuads, ha, hb, hmask, hfirst]
  rfl

theorem decodeQuads_pad (hc : kBase64Lookup cCh = some c) :
    decodeQuads (aCh :: bCh :: cCh :: kBase64Pad :: rest) =
      if c % 4 ≠ 0 then none
      else some [(a * 4 + b / 16).toUInt8, (b % 16 * 16 + c / 4).toUInt8] := by
  have hmask : c &&& 0x03 = c % 4 := and_low c 2
  obtain ⟨hfirst, hsecond, -⟩ := sextets_to_octets (kBase64Lookup_eq_some ha).1
    (kBase64Lookup_eq_some hb).1 (kBase64Lookup_eq_some hc).1 (d := 0) (by decide)
  simp only [decodeQuads, ha, hb, hc, if_neg (ne_pad_of_lookup hc), hmask, hfirst, hsecond]
  rfl

theorem decodeQuads_full (hc : kBase64Lookup cCh = some c) (hd : kBase64Lookup dCh = some d) :
    decodeQuads (aCh :: bCh :: cCh :: dCh :: rest) =
      (decodeQuads rest).map ([(a * 4 + b / 16).toUInt8, (b % 16 * 16 + c / 4).toUInt8,
        (c % 4 * 64 + d).toUInt8] ++ ·) := by
  obtain ⟨hfirst, hsecond, hthird⟩ := sextets_to_octets (kBase64Lookup_eq_some ha).1
    (kBase64Lookup_eq_some hb).1 (kBase64Lookup_eq_some hc).1 (kBase64Lookup_eq_some hd).1
  simp only [decodeQuads, ha, hb, hc, hd, if_neg (ne_pad_of_lookup hc),
    if_neg (ne_pad_of_lookup hd), hfirst, hsecond, hthird]

end

/-- What comes out of a round, and from which characters. -/
theorem decodeQuads_cases {rest x : Bytes}
    (h : decodeQuads (aCh :: bCh :: cCh :: dCh :: rest) = some x) :
    ∃ a b, kBase64Lookup aCh = some a ∧ kBase64Lookup bCh = some b ∧
      ((cCh = kBase64Pad ∧ dCh = kBase64Pad ∧ b % 16 = 0 ∧ x = [(a * 4 + b / 16).toUInt8]) ∨
        ∃ c, kBase64Lookup cCh = some c ∧
          ((dCh = kBase64Pad ∧ c % 4 = 0 ∧
              x = [(a * 4 + b / 16).toUInt8, (b % 16 * 16 + c / 4).toUInt8]) ∨
            ∃ d x', kBase64Lookup dCh = some d ∧ decodeQuads rest = some x' ∧
              x = [(a * 4 + b / 16).toUInt8, (b % 16 * 16 + c / 4).toUInt8,
                (c % 4 * 64 + d).toUInt8] ++ x')) := by
  cases ha : kBase64Lookup aCh with
  | none => simp [decodeQuads, ha] at h
  | some a =>
      cases hb : kBase64Lookup bCh with
      | none => simp [decodeQuads, ha, hb] at h
      | some b =>
          refine ⟨a, b, rfl, rfl, ?_⟩
          by_cases hcPad : cCh = kBase64Pad
          · subst hcPad
            by_cases hdPad : dCh = kBase64Pad
            · subst hdPad
              rw [decodeQuads_pad_pad rest ha hb] at h
              split at h
              next => cases h
              next hb0 => exact Or.inl ⟨rfl, rfl, not_not.mp hb0, (Option.some.inj h).symm⟩
            · simp [decodeQuads, ha, hb, hdPad] at h
          · cases hc : kBase64Lookup cCh with
            | none => simp [decodeQuads, ha, hb, hc, hcPad] at h
            | some c =>
                refine Or.inr ⟨c, rfl, ?_⟩
                by_cases hdPad : dCh = kBase64Pad
                · subst hdPad
                  rw [decodeQuads_pad rest ha hb hc] at h
                  split at h
                  next => cases h
                  next hc0 => exact Or.inl ⟨rfl, not_not.mp hc0, (Option.some.inj h).symm⟩
                · cases hd : kBase64Lookup dCh with
                  | none => simp [decodeQuads, ha, hb, hc, hd, hcPad, hdPad] at h
                  | some d =>
                      rw [decodeQuads_full rest ha hb hc hd] at h
                      obtain ⟨x', hx', rfl⟩ := Option.map_eq_some_iff.mp h
                      exact Or.inr ⟨d, x', rfl, hx', rfl⟩

/-! ## What the decoder accepts -/

theorem toUInt8_eq {n : Nat} {x : UInt8} (h : n = x.toNat) : n.toUInt8 = x := by
  rw [h]
  exact UInt8.ofNat_toNat

theorem toNat_toUInt8 {n : Nat} (h : n < 256) : n.toUInt8.toNat = n :=
  (UInt8.toNat_ofNat' ..).trans (Nat.mod_eq_of_lt h)

/-- The encoding of any bytes is decoded, and what follows its padding is not looked at. -/
theorem decodeQuads_base64Encode (bytes rest : Bytes) (h : rest = [] ∨ bytes.length % 3 ≠ 0) :
    decodeQuads (base64Encode bytes ++ rest) = some bytes := by
  induction bytes using base64Encode.induct with
  | case1 =>
      rcases h with rfl | h
      · rfl
      · exact absurd rfl h
  | case2 x =>
      have hx := x.toNat_lt
      rw [base64Encode_one]
      refine (decodeQuads_pad_pad rest (kBase64Lookup_base64Char (by omega))
        (kBase64Lookup_base64Char (by omega))).trans ?_
      rw [if_neg (by omega), toUInt8_eq (x := x) (by omega)]
  | case3 x y =>
      have hx := x.toNat_lt
      have hy := y.toNat_lt
      rw [base64Encode_two]
      refine (decodeQuads_pad rest (kBase64Lookup_base64Char (by omega))
        (kBase64Lookup_base64Char (by omega)) (kBase64Lookup_base64Char (by omega))).trans ?_
      rw [if_neg (by omega), toUInt8_eq (x := x) (by omega), toUInt8_eq (x := y) (by omega)]
  | case4 x y z bytes ih =>
      have hx := x.toNat_lt
      have hy := y.toNat_lt
      have hz := z.toNat_lt
      have hrest : rest = [] ∨ bytes.length % 3 ≠ 0 := by
        refine h.imp_right fun hpad => ?_
        simp only [List.length_cons] at hpad
        omega
      rw [base64Encode_three]
      refine (decodeQuads_full (base64Encode bytes ++ rest)
        (kBase64Lookup_base64Char (by omega))
        (kBase64Lookup_base64Char (by omega)) (kBase64Lookup_base64Char (by omega))
        (kBase64Lookup_base64Char (by omega))).trans ?_
      rw [ih hrest, toUInt8_eq (x := x) (by omega), toUInt8_eq (x := y) (by omega),
        toUInt8_eq (x := z) (by omega)]
      rfl

section
variable {aCh bCh cCh dCh : UInt8} {a b c d : Nat}
  (ha : kBase64Lookup aCh = some a) (hb : kBase64Lookup bCh = some b)

include ha hb

/-- The bytes of a round are encoded as its characters. -/
theorem base64Encode_quad_one (hb0 : b % 16 = 0) :
    base64Encode [(a * 4 + b / 16).toUInt8] = [aCh, bCh, kBase64Pad, kBase64Pad] := by
  obtain ⟨ha, rfl⟩ := kBase64Lookup_eq_some ha
  obtain ⟨hb, rfl⟩ := kBase64Lookup_eq_some hb
  have ha' : (a * 4 + b / 16) / 4 = a := by omega
  have hb' : (a * 4 + b / 16) % 4 * 16 = b := by omega
  rw [base64Encode_one, toNat_toUInt8 (by omega), ha', hb']

theorem base64Encode_quad_two (hc : kBase64Lookup cCh = some c) (hc0 : c % 4 = 0) :
    base64Encode [(a * 4 + b / 16).toUInt8, (b % 16 * 16 + c / 4).toUInt8] =
      [aCh, bCh, cCh, kBase64Pad] := by
  obtain ⟨ha, rfl⟩ := kBase64Lookup_eq_some ha
  obtain ⟨hb, rfl⟩ := kBase64Lookup_eq_some hb
  obtain ⟨hc, rfl⟩ := kBase64Lookup_eq_some hc
  have ha' : (a * 4 + b / 16) / 4 = a := by omega
  have hb' : (a * 4 + b / 16) % 4 * 16 + (b % 16 * 16 + c / 4) / 16 = b := by omega
  have hc' : (b % 16 * 16 + c / 4) % 16 * 4 = c := by omega
  rw [base64Encode_two, toNat_toUInt8 (by omega), toNat_toUInt8 (by omega), ha', hb', hc']

theorem base64Encode_quad_three (hc : kBase64Lookup cCh = some c)
    (hd : kBase64Lookup dCh = some d) (bytes : Bytes) :
    base64Encode ((a * 4 + b / 16).toUInt8 :: (b % 16 * 16 + c / 4).toUInt8 ::
        (c % 4 * 64 + d).toUInt8 :: bytes) =
      aCh :: bCh :: cCh :: dCh :: base64Encode bytes := by
  obtain ⟨ha, rfl⟩ := kBase64Lookup_eq_some ha
  obtain ⟨hb, rfl⟩ := kBase64Lookup_eq_some hb
  obtain ⟨hc, rfl⟩ := kBase64Lookup_eq_some hc
  obtain ⟨hd, rfl⟩ := kBase64Lookup_eq_some hd
  have ha' : (a * 4 + b / 16) / 4 = a := by omega
  have hb' : (a * 4 + b / 16) % 4 * 16 + (b % 16 * 16 + c / 4) / 16 = b := by omega
  have hc' : (b % 16 * 16 + c / 4) % 16 * 4 + (c % 4 * 64 + d) / 64 = c := by omega
  have hd' : (c % 4 * 64 + d) % 64 = d := by omega
  rw [base64Encode_three, toNat_toUInt8 (by omega), toNat_toUInt8 (by omega),
    toNat_toUInt8 (by omega), ha', hb', hc', hd']

end

/-- What is decoded is an encoding, up to what follows its padding. -/
theorem decodeQuads_eq_some {input bytes : Bytes} (hlen : 4 ∣ input.length)
    (h : decodeQuads input = some bytes) :
    ∃ rest, input = base64Encode bytes ++ rest ∧ 4 ∣ rest.length ∧
      (rest = [] ∨ bytes.length % 3 ≠ 0) := by
  induction hn : input.length using Nat.strongRecOn generalizing input bytes with
  | _ n ih =>
      match input, hlen, h with
      | [], _, h =>
          obtain rfl : [] = bytes := Option.some.inj h
          exact ⟨[], rfl, ⟨0, rfl⟩, Or.inl rfl⟩
      | [_], hlen, _ | [_, _], hlen, _ | [_, _, _], hlen, _ =>
          simp only [List.length_cons, List.length_nil] at hlen
          omega
      | aCh :: bCh :: cCh :: dCh :: rest, hlen, h =>
          simp only [List.length_cons] at hlen hn
          have hrest : 4 ∣ rest.length := by omega
          obtain ⟨a, b, ha, hb, hcases⟩ := decodeQuads_cases h
          rcases hcases with ⟨rfl, rfl, hb0, rfl⟩ | ⟨c, hc, ⟨rfl, hc0, rfl⟩ | hfull⟩
          · refine ⟨rest, ?_, hrest, Or.inr (show 1 % 3 ≠ 0 by decide)⟩
            rw [base64Encode_quad_one ha hb hb0]
            rfl
          · refine ⟨rest, ?_, hrest, Or.inr (show 2 % 3 ≠ 0 by decide)⟩
            rw [base64Encode_quad_two ha hb hc hc0]
            rfl
          · obtain ⟨d, bytes, hd, hbytes, rfl⟩ := hfull
            obtain ⟨tail, rfl, htail, hpad⟩ := ih rest.length (by omega) hrest hbytes rfl
            refine ⟨tail, ?_, htail, hpad.imp_right fun hpad => ?_⟩
            · rw [List.cons_append, List.cons_append, List.cons_append, List.nil_append,
                base64Encode_quad_three ha hb hc hd]
              rfl
            · simp only [List.length_append, List.length_cons, List.length_nil]
              omega

theorem length_base64Encode (bytes : Bytes) : 4 ∣ (base64Encode bytes).length := by
  induction bytes using base64Encode.induct with
  | case1 => exact ⟨0, rfl⟩
  | case2 x => exact ⟨1, rfl⟩
  | case3 x y => exact ⟨1, rfl⟩
  | case4 x y z bytes ih =>
      rw [base64Encode_three]
      simp only [List.length_cons]
      omega

/-! ## Data after padding -/

/-- Four characters of the alphabet. -/
def FullQuad (a b c d : UInt8) : Prop :=
  ∀ ch ∈ [a, b, c, d], ∃ i, kBase64Lookup ch = some i

/-- Four characters that end in padding, whose spare bits are zero. -/
def PaddedQuad (a b c d : UInt8) : Prop :=
  (∃ i, kBase64Lookup a = some i) ∧ (∃ j, kBase64Lookup b = some j ∧
    (c = kBase64Pad ∧ j % 16 = 0 ∨ ∃ k, kBase64Lookup c = some k ∧ k % 4 = 0)) ∧ d = kBase64Pad

/-- After quadruples of the alphabet only, a padded one that is not the last. -/
def DataAfterPadding : Bytes → Prop
  | a :: b :: c :: d :: rest =>
      PaddedQuad a b c d ∧ rest ≠ [] ∧ 4 ∣ rest.length ∨
        FullQuad a b c d ∧ DataAfterPadding rest
  | _ => False

/-- These texts are encodings with something behind them. -/
theorem DataAfterPadding.exists_encoded {input : Bytes} (h : DataAfterPadding input) :
    ∃ bytes rest, input = base64Encode bytes ++ rest ∧
      bytes.length % 3 ≠ 0 ∧ rest ≠ [] ∧ 4 ∣ rest.length := by
  induction input using DataAfterPadding.induct with
  | case2 => simp [DataAfterPadding] at h
  | case1 aCh bCh cCh dCh rest ih =>
      rcases h with ⟨⟨⟨a, ha⟩, ⟨b, hb, hc⟩, rfl⟩, hne, hrest⟩ | ⟨hfull, hlater⟩
      · rcases hc with ⟨rfl, hb0⟩ | ⟨c, hc, hc0⟩
        · refine ⟨[(a * 4 + b / 16).toUInt8], rest, ?_, (show 1 % 3 ≠ 0 by decide), hne, hrest⟩
          rw [base64Encode_quad_one ha hb hb0]
          rfl
        · refine ⟨[(a * 4 + b / 16).toUInt8, (b % 16 * 16 + c / 4).toUInt8], rest, ?_,
            (show 2 % 3 ≠ 0 by decide), hne, hrest⟩
          rw [base64Encode_quad_two ha hb hc hc0]
          rfl
      · obtain ⟨bytes, tail, rfl, hpad, hne, htail⟩ := ih hlater
        obtain ⟨⟨a, ha⟩, ⟨b, hb⟩, ⟨c, hc⟩, ⟨d, hd⟩, -⟩ :
            (∃ a, kBase64Lookup aCh = some a) ∧ (∃ b, kBase64Lookup bCh = some b) ∧
              (∃ c, kBase64Lookup cCh = some c) ∧ (∃ d, kBase64Lookup dCh = some d) ∧
                True := by
          simpa only [FullQuad, List.forall_mem_cons, List.not_mem_nil, false_imp_iff,
            implies_true] using hfull
        refine ⟨(a * 4 + b / 16).toUInt8 :: (b % 16 * 16 + c / 4).toUInt8 ::
          (c % 4 * 64 + d).toUInt8 :: bytes, tail, ?_, ?_, hne, htail⟩
        · rw [base64Encode_quad_three ha hb hc hd]
          rfl
        · simp only [List.length_cons]
          omega

theorem dataAfterPadding_append {bytes rest : Bytes} (hpad : bytes.length % 3 ≠ 0)
    (hne : rest ≠ []) (hrest : 4 ∣ rest.length) :
    DataAfterPadding (base64Encode bytes ++ rest) := by
  induction bytes using base64Encode.induct with
  | case1 => exact absurd rfl hpad
  | case2 x =>
      have hx := x.toNat_lt
      rw [base64Encode_one]
      exact Or.inl ⟨⟨⟨_, kBase64Lookup_base64Char (by omega)⟩,
        ⟨_, kBase64Lookup_base64Char (by omega), Or.inl ⟨rfl, by omega⟩⟩, rfl⟩, hne, hrest⟩
  | case3 x y =>
      have hx := x.toNat_lt
      have hy := y.toNat_lt
      rw [base64Encode_two]
      exact Or.inl ⟨⟨⟨_, kBase64Lookup_base64Char (by omega)⟩,
        ⟨_, kBase64Lookup_base64Char (by omega),
          Or.inr ⟨_, kBase64Lookup_base64Char (by omega), by omega⟩⟩, rfl⟩, hne, hrest⟩
  | case4 x y z bytes ih =>
      have hx := x.toNat_lt
      have hy := y.toNat_lt
      have hz := z.toNat_lt
      rw [base64Encode_three]
      refine Or.inr ⟨?_, ih ?_⟩
      · simp only [FullQuad, List.forall_mem_cons]
        exact ⟨⟨_, kBase64Lookup_base64Char (by omega)⟩,
          ⟨_, kBase64Lookup_base64Char (by omega)⟩, ⟨_, kBase64Lookup_base64Char (by omega)⟩,
          ⟨_, kBase64Lookup_base64Char (by omega)⟩, fun _ h => absurd h List.not_mem_nil⟩
      · simp only [List.length_cons] at hpad
        omega

theorem dataAfterPadding_iff (input : Bytes) :
    DataAfterPadding input ↔ ∃ bytes rest, input = base64Encode bytes ++ rest ∧
      bytes.length % 3 ≠ 0 ∧ rest ≠ [] ∧ 4 ∣ rest.length := by
  constructor
  · exact DataAfterPadding.exists_encoded
  · rintro ⟨bytes, rest, rfl, hpad, hne, hrest⟩
    exact dataAfterPadding_append hpad hne hrest

/-- The decoder inverts the encoder, and takes nothing else but for what follows padding. -/
theorem base64Decode_eq_some_iff (input bytes : Bytes) :
    base64Decode input = some bytes ↔ ∃ rest, input = base64Encode bytes ++ rest ∧
      4 ∣ rest.length ∧ (rest = [] ∨ bytes.length % 3 ≠ 0) := by
  unfold base64Decode
  constructor
  · intro h
    split at h
    next => cases h
    next hlen => exact decodeQuads_eq_some (Nat.dvd_of_mod_eq_zero (not_not.mp hlen)) h
  · rintro ⟨rest, rfl, hrest, hpad⟩
    have hbytes := length_base64Encode bytes
    rw [List.length_append, if_neg (by omega)]
    exact decodeQuads_base64Encode bytes rest hpad

/-- The codec is exact on the texts without data after their padding. -/
theorem base64_exact_iff (input : Bytes) :
    (∀ bytes, base64Decode input = some bytes ↔ input = base64Encode bytes) ↔
      ¬DataAfterPadding input := by
  constructor
  · intro h hafter
    obtain ⟨bytes, rest, hinput, hpad, hne, hrest⟩ := (dataAfterPadding_iff input).mp hafter
    have hdecoded : base64Decode input = some bytes :=
      (base64Decode_eq_some_iff input bytes).mpr ⟨rest, hinput, hrest, Or.inr hpad⟩
    have hexact := (h bytes).mp hdecoded
    rw [hinput] at hexact
    exact hne (List.append_right_eq_self.mp hexact)
  · intro hafter bytes
    rw [base64Decode_eq_some_iff]
    constructor
    · rintro ⟨rest, hinput, hrest, hpad⟩
      by_cases hne : rest = []
      · rw [hinput, hne, List.append_nil]
      · have hpad := hpad.resolve_left hne
        exact absurd ((dataAfterPadding_iff input).mpr ⟨bytes, rest, hinput, hpad, hne, hrest⟩)
          hafter
    · rintro rfl
      exact ⟨[], (List.append_nil _).symm, ⟨0, rfl⟩, Or.inl rfl⟩

/-- One byte, its padding, and three bytes more. -/
theorem base64_not_exact :
    ¬∀ bytes, base64Decode (ascii "QQ==QUJD") = some bytes ↔
      ascii "QQ==QUJD" = base64Encode bytes := by
  intro h
  exact absurd ((h (ascii "A")).mp (by decide)) (by decide)

end Acva.Stt

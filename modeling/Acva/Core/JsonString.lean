import Mathlib.Data.Bool.AllAny
import Mathlib.Data.List.Basic
import Mathlib.Tactic.Common

/-! # JSON strings

A string is read byte by byte, up to the quote that closes it. A byte stands for itself
unless it is a control byte, which is not allowed, or a backslash. Behind that comes one
letter, or `u` and four digits for a code unit, which is read as UTF-8. An escaper that
turns each byte into something that is read as that byte can be read back.
-/

namespace Acva.Json

def quote : UInt8 := '"'.toUInt8

def backslash : UInt8 := '\\'.toUInt8

/-! ## Reading -/

/-- What a letter behind a backslash stands for. -/
def unescapeLetter (letter : UInt8) : Option UInt8 :=
  if letter = quote ∨ letter = backslash ∨ letter = '/'.toUInt8 then some letter
  else if letter = 'b'.toUInt8 then some 0x08
  else if letter = 'f'.toUInt8 then some 0x0c
  else if letter = 'n'.toUInt8 then some 0x0a
  else if letter = 'r'.toUInt8 then some 0x0d
  else if letter = 't'.toUInt8 then some 0x09
  else none

def hexValue (digit : UInt8) : Option Nat :=
  if '0'.toUInt8 ≤ digit ∧ digit ≤ '9'.toUInt8 then some (digit - '0'.toUInt8).toNat
  else if 'a'.toUInt8 ≤ digit ∧ digit ≤ 'f'.toUInt8 then some ((digit - 'a'.toUInt8).toNat + 10)
  else if 'A'.toUInt8 ≤ digit ∧ digit ≤ 'F'.toUInt8 then some ((digit - 'A'.toUInt8).toNat + 10)
  else none

def codeUnit (digits : List UInt8) : Option Nat :=
  digits.foldlM (fun value digit => (hexValue digit).map (16 * value + ·)) 0

def isHighSurrogate (unit : Nat) : Bool := 0xd800 ≤ unit ∧ unit ≤ 0xdbff

def isLowSurrogate (unit : Nat) : Bool := 0xdc00 ≤ unit ∧ unit ≤ 0xdfff

def utf8 (codePoint : Nat) : List UInt8 := String.utf8EncodeChar (Char.ofNat codePoint)

/-- A high surrogate takes a low one with it, and neither stands alone. -/
def readString : List UInt8 → Option (List UInt8 × List UInt8)
  | [] => none
  | b :: text =>
      if b = quote then some ([], text)
      else if b = backslash then
        match text with
        | [] => none
        | letter :: text =>
            if letter = 'u'.toUInt8 then
              match text with
              | d₁ :: d₂ :: d₃ :: d₄ :: text =>
                  match codeUnit [d₁, d₂, d₃, d₄] with
                  | none => none
                  | some unit =>
                      if isHighSurrogate unit then
                        match text with
                        | b' :: letter' :: e₁ :: e₂ :: e₃ :: e₄ :: text =>
                            if b' = backslash ∧ letter' = 'u'.toUInt8 then
                              match codeUnit [e₁, e₂, e₃, e₄] with
                              | none => none
                              | some low =>
                                  if isLowSurrogate low then
                                    (readString text).map fun r =>
                                      (utf8 (0x10000 + (unit - 0xd800) * 0x400 + (low - 0xdc00)) ++
                                        r.1, r.2)
                                  else none
                            else none
                        | _ => none
                      else if isLowSurrogate unit then none
                      else (readString text).map fun r => (utf8 unit ++ r.1, r.2)
              | _ => none
            else
              match unescapeLetter letter with
              | none => none
              | some c => (readString text).map fun r => (c :: r.1, r.2)
      else if b < 0x20 then none
      else (readString text).map fun r => (b :: r.1, r.2)

theorem readString_quote (text : List UInt8) : readString (quote :: text) = some ([], text) := by
  rw [readString.eq_def]
  simp only [↓reduceIte]

/-- The string whose quotes enclose a text. -/
def unescape (text : List UInt8) : Option (List UInt8) :=
  match readString (text ++ [quote]) with
  | some (s, []) => some s
  | _ => none

/-! ## What may stand between the quotes -/

/-- A byte that stands for itself. -/
def Plain (b : UInt8) : Prop := 0x20 ≤ b ∧ b ≠ quote ∧ b ≠ backslash

instance (b : UInt8) : Decidable (Plain b) := inferInstanceAs (Decidable (_ ∧ _ ∧ _))

/-- A plain byte or a whole escape. -/
inductive Piece : List UInt8 → Prop
  | plain {b : UInt8} (h : Plain b) : Piece [b]
  | letter {letter : UInt8} (h : (unescapeLetter letter).isSome = true) :
      Piece [backslash, letter]
  | unit {digits : List UInt8} (hlen : digits.length = 4)
      (h : ∀ d ∈ digits, (hexValue d).isSome = true) : Piece (backslash :: 'u'.toUInt8 :: digits)

/-- No control byte, no quote that is not escaped, and no backslash but to begin an escape. -/
def StringBody (text : List UInt8) : Prop :=
  ∃ pieces : List (List UInt8), text = pieces.flatten ∧ ∀ piece ∈ pieces, Piece piece

theorem le_of_hexValue {digit : UInt8} (h : (hexValue digit).isSome = true) : 0x20 ≤ digit := by
  unfold hexValue at h
  split at h
  next hdigit => exact UInt8.le_trans (by decide) hdigit.1
  split at h
  next hlower => exact UInt8.le_trans (by decide) hlower.1
  split at h
  next hupper => exact UInt8.le_trans (by decide) hupper.1
  cases h

theorem le_of_unescapeLetter {letter : UInt8} (h : (unescapeLetter letter).isSome = true) :
    0x20 ≤ letter := by
  unfold unescapeLetter at h
  split at h
  next hself => rcases hself with rfl | rfl | rfl <;> decide
  repeat'
    split at h
    next hone => subst hone; decide
  cases h

theorem Piece.no_control {piece : List UInt8} (h : Piece piece) : ∀ b ∈ piece, 0x20 ≤ b := by
  have hbackslash : 0x20 ≤ backslash := by decide
  cases h with
  | plain h => exact List.forall_mem_singleton.mpr h.1
  | letter h =>
      exact List.forall_mem_cons.mpr ⟨hbackslash,
        List.forall_mem_singleton.mpr (le_of_unescapeLetter h)⟩
  | unit hlen h =>
      exact List.forall_mem_cons.mpr ⟨hbackslash,
        List.forall_mem_cons.mpr ⟨by decide, fun d hd => le_of_hexValue (h d hd)⟩⟩

theorem StringBody.no_control {text : List UInt8} (h : StringBody text) :
    ∀ b ∈ text, 0x20 ≤ b := by
  obtain ⟨pieces, rfl, hpieces⟩ := h
  intro b hb
  obtain ⟨piece, hpiece, hb⟩ := List.mem_flatten.mp hb
  exact (hpieces piece hpiece).no_control b hb

/-! ## Escapers -/

/-- Where it stands, a text is read as one byte. -/
def ReadAs (c : UInt8) (text : List UInt8) : Prop :=
  ∀ rest, readString (text ++ rest) = (readString rest).map fun r => (c :: r.1, r.2)

theorem readAs_plain {c : UInt8} (h : Plain c) : ReadAs c [c] := by
  intro rest
  obtain ⟨hcontrol, hquote, hbackslash⟩ := h
  rw [List.singleton_append, readString.eq_def]
  simp only [if_neg hquote, if_neg hbackslash, if_neg (UInt8.not_lt.mpr hcontrol)]

theorem readAs_letter {c letter : UInt8} (h : unescapeLetter letter = some c) :
    ReadAs c [backslash, letter] := by
  intro rest
  have hu : letter ≠ 'u'.toUInt8 := by
    rintro rfl
    cases h
  have hother : backslash ≠ quote := by decide
  rw [List.cons_append, List.singleton_append, readString.eq_def]
  simp only [if_neg hother, ↓reduceIte, if_neg hu, h]

/-- `%04x`. -/
def hex4 (n : Nat) : List UInt8 :=
  [n / 4096, n / 256, n / 16, n].map fun m => (Nat.digitChar (m % 16)).toUInt8

theorem codeUnit_hex4 {n : Nat} (h : n < 0x20) : codeUnit (hex4 n) = some n := by
  have hall : ∀ n < 0x20, codeUnit (hex4 n) = some n := by decide
  exact hall n h

theorem utf8_control {c : UInt8} (h : c < 0x20) : utf8 c.toNat = [c] := by
  have hall : ∀ n < 0x20, utf8 n = [UInt8.ofNat n] := by decide
  have hone := hall c.toNat (UInt8.lt_iff_toNat_lt.mp h)
  rwa [UInt8.ofNat_toNat] at hone

theorem readAs_unit {c : UInt8} (h : c < 0x20) :
    ReadAs c (backslash :: 'u'.toUInt8 :: hex4 c.toNat) := by
  intro rest
  have hlt : c.toNat < 0x20 := UInt8.lt_iff_toNat_lt.mp h
  have hunit := codeUnit_hex4 hlt
  have hhigh : isHighSurrogate c.toNat = false := by
    simp only [isHighSurrogate, decide_eq_false_iff_not]
    omega
  have hlow : isLowSurrogate c.toNat = false := by
    simp only [isLowSurrogate, decide_eq_false_iff_not]
    omega
  simp only [hex4, List.map_cons, List.map_nil] at hunit ⊢
  have hother : backslash ≠ quote := by decide
  rw [readString.eq_def]
  simp only [List.cons_append, List.nil_append, if_neg hother, ↓reduceIte, hunit, hhigh, hlow,
    Bool.false_eq_true, utf8_control h]

/-- The bytes that have a letter of their own, which comes behind a backslash. Quotes and
backslashes are among them. -/
structure ShortEscapes where
  table : List (UInt8 × UInt8)
  reads : ∀ row ∈ table, unescapeLetter row.2 = some row.1
  quoted : (table.lookup quote).isSome = true
  backslashed : (table.lookup backslash).isSome = true

namespace ShortEscapes

variable (short : ShortEscapes)

def escapeByte (c : UInt8) : List UInt8 :=
  match short.table.lookup c with
  | some letter => [backslash, letter]
  | none => if c < 0x20 then backslash :: 'u'.toUInt8 :: hex4 c.toNat else [c]

def escape (s : List UInt8) : List UInt8 := s.flatMap short.escapeByte

variable {short}

theorem unescapeLetter_of_lookup {c letter : UInt8} (h : short.table.lookup c = some letter) :
    unescapeLetter letter = some c := by
  obtain ⟨before, after, heq, -⟩ := List.lookup_eq_some_iff.mp h
  exact short.reads (c, letter) (heq ▸ List.mem_append_right _ List.mem_cons_self)

/-- What has no letter and is no control byte stands for itself. -/
theorem plain_of_lookup {c : UInt8} (h : short.table.lookup c = none) (hc : ¬c < 0x20) :
    Plain c := by
  refine ⟨UInt8.not_lt.mp hc, ?_, ?_⟩
  · rintro rfl
    have hquoted := short.quoted
    rw [h] at hquoted
    cases hquoted
  · rintro rfl
    have hbackslashed := short.backslashed
    rw [h] at hbackslashed
    cases hbackslashed

theorem readAs_escapeByte (c : UInt8) : ReadAs c (short.escapeByte c) := by
  unfold escapeByte
  cases hrow : short.table.lookup c with
  | some letter => exact readAs_letter (unescapeLetter_of_lookup hrow)
  | none =>
      by_cases hc : c < 0x20
      · simp only [if_pos hc]
        exact readAs_unit hc
      · simp only [if_neg hc]
        exact readAs_plain (plain_of_lookup hrow hc)

theorem piece_escapeByte (c : UInt8) : Piece (short.escapeByte c) := by
  unfold escapeByte
  cases hrow : short.table.lookup c with
  | some letter => exact .letter (by rw [unescapeLetter_of_lookup hrow]; rfl)
  | none =>
      by_cases hc : c < 0x20
      · simp only [if_pos hc]
        have hhex : ∀ n < 0x20, (hex4 n).all (fun d => (hexValue d).isSome) = true := by decide
        exact .unit rfl (List.all_eq_true.mp (hhex c.toNat (UInt8.lt_iff_toNat_lt.mp hc)))
      · simp only [if_neg hc]
        exact .plain (plain_of_lookup hrow hc)

theorem stringBody_escape (s : List UInt8) : StringBody (short.escape s) := by
  refine ⟨s.map short.escapeByte, List.flatMap_def, fun piece hpiece => ?_⟩
  obtain ⟨c, -, rfl⟩ := List.mem_map.mp hpiece
  exact piece_escapeByte c

/-- What is escaped is read back up to the quote behind it. -/
theorem readString_escape (s rest : List UInt8) :
    readString (short.escape s ++ quote :: rest) = some (s, rest) := by
  induction s with
  | nil => exact readString_quote rest
  | cons c s ih =>
      rw [escape, List.flatMap_cons, List.append_assoc, readAs_escapeByte c]
      rw [show s.flatMap short.escapeByte = short.escape s from rfl, ih]
      rfl

theorem unescape_escape (s : List UInt8) : unescape (short.escape s) = some s := by
  rw [unescape, readString_escape]

end ShortEscapes

end Acva.Json

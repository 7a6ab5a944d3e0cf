import Acva.Core.JsonString
import Mathlib.Data.List.TakeWhile
import Mathlib.Data.Nat.Digits.Lemmas

/-! # JSON texts

A value is read from the front of a text. The fuel bounds how often the reader calls itself,
which the length of the text is enough for. The members of an object are kept in order, and
a key that comes twice is kept twice. A number is kept as it is written.
-/

namespace Acva.Json

inductive Value
  | null
  | bool (value : Bool)
  | number (text : List UInt8)
  | string (value : List UInt8)
  | array (values : List Value)
  | object (members : List (List UInt8 × Value))

/-! ## Numbers -/

def isDigit (b : UInt8) : Bool := '0'.toUInt8 ≤ b ∧ b ≤ '9'.toUInt8

/-- Digits, without a zero in front of others. -/
def isInteger (text : List UInt8) : Bool :=
  text ≠ [] ∧ text.all isDigit = true ∧ (text.head? = some '0'.toUInt8 → text.length = 1)

def isExponent : List UInt8 → Bool
  | [] => true
  | e :: text =>
      let digits :=
        match text with
        | sign :: digits =>
            if sign = '+'.toUInt8 ∨ sign = '-'.toUInt8 then digits else sign :: digits
        | [] => []
      (e = 'e'.toUInt8 ∨ e = 'E'.toUInt8) && (digits ≠ [] ∧ digits.all isDigit = true)

/-- What may stand behind the integer part. -/
def isFraction : List UInt8 → Bool
  | [] => true
  | point :: text =>
      if point = '.'.toUInt8 then
        text.takeWhile isDigit ≠ [] && isExponent (text.dropWhile isDigit)
      else isExponent (point :: text)

def isNumber (text : List UInt8) : Bool :=
  let text :=
    match text with
    | sign :: text => if sign = '-'.toUInt8 then text else sign :: text
    | [] => []
  isInteger (text.takeWhile isDigit) && isFraction (text.dropWhile isDigit)

/-- A byte that may stand in a number. -/
def isNumberByte (b : UInt8) : Bool :=
  isDigit b || b ∈ ['+'.toUInt8, '-'.toUInt8, '.'.toUInt8, 'e'.toUInt8, 'E'.toUInt8]

/-! ## Reading -/

def isSpace (b : UInt8) : Bool := b ∈ [0x20, 0x09, 0x0a, 0x0d]

/-- The text behind a byte, which may have white space in front. -/
def expect (b : UInt8) (text : List UInt8) : Option (List UInt8) :=
  match text.dropWhile isSpace with
  | c :: text => if c = b then some text else none
  | [] => none

def readWord (word : List UInt8) (value : Value) (text : List UInt8) :
    Option (Value × List UInt8) :=
  if word.isPrefixOf text = true then some (value, text.drop word.length) else none

/-- A value that is neither a string nor made of others. -/
def readPlain (text : List UInt8) : Option (Value × List UInt8) :=
  let number := text.takeWhile isNumberByte
  if isNumber number = true then some (.number number, text.drop number.length)
  else
    readWord ['t'.toUInt8, 'r'.toUInt8, 'u'.toUInt8, 'e'.toUInt8] (.bool true) text
      <|> readWord ['f'.toUInt8, 'a'.toUInt8, 'l'.toUInt8, 's'.toUInt8, 'e'.toUInt8]
        (.bool false) text
      <|> readWord ['n'.toUInt8, 'u'.toUInt8, 'l'.toUInt8, 'l'.toUInt8] .null text

mutual

def readValue : Nat → List UInt8 → Option (Value × List UInt8)
  | 0, _ => none
  | fuel + 1, text =>
      match text.dropWhile isSpace with
      | [] => none
      | b :: rest =>
          if b = quote then (readString rest).map fun r => (.string r.1, r.2)
          else if b = '\x7b'.toUInt8 then
            match expect '\x7d'.toUInt8 rest with
            | some rest => some (.object [], rest)
            | none => (readMembers fuel rest).map fun r => (.object r.1, r.2)
          else if b = '['.toUInt8 then
            match expect ']'.toUInt8 rest with
            | some rest => some (.array [], rest)
            | none => (readElements fuel rest).map fun r => (.array r.1, r.2)
          else readPlain (b :: rest)

/-- The members of an object that has some, up to the brace. -/
def readMembers : Nat → List UInt8 → Option (List (List UInt8 × Value) × List UInt8)
  | 0, _ => none
  | fuel + 1, text => do
      let rest ← expect quote text
      let (key, rest) ← readString rest
      let rest ← expect ':'.toUInt8 rest
      let (value, rest) ← readValue fuel rest
      match expect ','.toUInt8 rest with
      | some rest => (readMembers fuel rest).map fun r => ((key, value) :: r.1, r.2)
      | none => (expect '\x7d'.toUInt8 rest).map fun rest => ([(key, value)], rest)

/-- The elements of an array that has some, up to the bracket. -/
def readElements : Nat → List UInt8 → Option (List Value × List UInt8)
  | 0, _ => none
  | fuel + 1, text => do
      let (value, rest) ← readValue fuel text
      match expect ','.toUInt8 rest with
      | some rest => (readElements fuel rest).map fun r => (value :: r.1, r.2)
      | none => (expect ']'.toUInt8 rest).map fun rest => ([value], rest)

end

/-- A text that is one value, with nothing behind it but white space. -/
def parse (text : List UInt8) : Option Value :=
  match readValue (text.length + 1) text with
  | some (value, rest) => if rest.all isSpace = true then some value else none
  | none => none

/-! ## Decimal fractions -/

def digitByte (d : Nat) : UInt8 := (Nat.digitChar d).toUInt8

def decimal (n : Nat) : List UInt8 :=
  if n = 0 then [digitByte 0] else (Nat.digits 10 n).reverse.map digitByte

theorem isDigit_digitByte {d : Nat} (h : d < 10) : isDigit (digitByte d) = true := by
  have hall : ∀ d < 10, isDigit (digitByte d) = true := by decide
  exact hall d h

theorem digitByte_ne_zero {d : Nat} (h : d < 10) (hne : d ≠ 0) : digitByte d ≠ '0'.toUInt8 := by
  have hall : ∀ d < 10, d ≠ 0 → digitByte d ≠ '0'.toUInt8 := by decide
  exact hall d h hne

theorem isDigit_of_mem_decimal {n : Nat} : ∀ b ∈ decimal n, isDigit b = true := by
  unfold decimal
  split
  · exact List.forall_mem_singleton.mpr (isDigit_digitByte (by decide))
  · intro b hb
    obtain ⟨d, hd, rfl⟩ := List.mem_map.mp hb
    exact isDigit_digitByte (Nat.digits_lt_base (by decide) (List.mem_reverse.mp hd))

/-- The first digit of a positive number is its last to be divided out, which is not zero. -/
theorem isInteger_decimal (n : Nat) : isInteger (decimal n) = true := by
  have hall : (decimal n).all isDigit = true := List.all_eq_true.mpr isDigit_of_mem_decimal
  unfold isInteger
  by_cases hn : n = 0
  · subst hn
    decide
  · have hdigits : Nat.digits 10 n ≠ [] := Nat.digits_ne_nil_iff_ne_zero.mpr hn
    have hlast : (Nat.digits 10 n).getLast hdigits ≠ 0 := Nat.getLast_digit_ne_zero 10 hn
    have hlt : (Nat.digits 10 n).getLast hdigits < 10 :=
      Nat.digits_lt_base (by decide) (List.getLast_mem hdigits)
    have hhead : (decimal n).head? = some (digitByte ((Nat.digits 10 n).getLast hdigits)) := by
      rw [decimal, if_neg hn, List.head?_map, List.head?_reverse,
        List.getLast?_eq_some_getLast hdigits, Option.map_some]
    have hne : decimal n ≠ [] := by
      intro hnil
      rw [hnil] at hhead
      cases hhead
    rw [decide_eq_true_eq]
    refine ⟨hne, hall, fun hzero => ?_⟩
    rw [hhead] at hzero
    exact absurd (Option.some.inj hzero) (digitByte_ne_zero hlt hlast)

theorem exists_decimal_cons (n : Nat) : ∃ d rest, decimal n = d :: rest := by
  refine List.exists_cons_of_ne_nil fun hnil => ?_
  have hint := isInteger_decimal n
  rw [hnil] at hint
  cases hint

theorem isNumber_fraction (n : Nat) {digits : List UInt8} (hne : digits ≠ [])
    (hdigits : ∀ b ∈ digits, isDigit b = true) :
    isNumber (decimal n ++ '.'.toUInt8 :: digits) = true := by
  have hpoint : isDigit '.'.toUInt8 = false := by decide
  have hint := isInteger_decimal n
  have hall : ∀ b ∈ decimal n, isDigit b = true := isDigit_of_mem_decimal
  obtain ⟨d, rest, hfront⟩ := exists_decimal_cons n
  have hsign : d ≠ '-'.toUInt8 := by
    rintro rfl
    have hd := hall _ (hfront ▸ List.mem_cons_self)
    revert hd
    decide
  have htake : (decimal n ++ '.'.toUInt8 :: digits).takeWhile isDigit = decimal n := by
    rw [List.takeWhile_append_of_pos hall, List.takeWhile_cons_of_neg (by simp [hpoint]),
      List.append_nil]
  have hdrop : (decimal n ++ '.'.toUInt8 :: digits).dropWhile isDigit =
      '.'.toUInt8 :: digits := by
    rw [List.dropWhile_append_of_pos hall, List.dropWhile_cons_of_neg (by simp [hpoint])]
  have hwhole : digits.takeWhile isDigit = digits := List.takeWhile_eq_self_iff.mpr hdigits
  have hnone : digits.dropWhile isDigit = [] := List.dropWhile_eq_nil_iff.mpr hdigits
  have hfraction : isFraction ('.'.toUInt8 :: digits) = true := by
    simp only [isFraction, ↓reduceIte, hwhole, hnone, isExponent, Bool.and_true]
    exact decide_eq_true hne
  have hbody : (isInteger ((decimal n ++ '.'.toUInt8 :: digits).takeWhile isDigit) &&
      isFraction ((decimal n ++ '.'.toUInt8 :: digits).dropWhile isDigit)) = true := by
    rw [htake, hdrop, hint, hfraction]
    rfl
  rw [hfront, List.cons_append] at hbody ⊢
  simp only [isNumber, if_neg hsign]
  exact hbody

/-! ## Reading what was written -/

variable {b c : UInt8} {value : Value}

theorem expect_self (h : isSpace b = false) (text : List UInt8) :
    expect b (b :: text) = some text := by
  rw [expect, List.dropWhile_cons_of_neg (by simp [h])]
  exact if_pos rfl

theorem expect_other (h : isSpace c = false) (hne : c ≠ b) (text : List UInt8) :
    expect b (c :: text) = none := by
  rw [expect, List.dropWhile_cons_of_neg (by simp [h])]
  exact if_neg hne

/-- In front of a byte that cannot belong to a number, a text is read as one value. -/
def Writes (value : Value) (text : List UInt8) : Prop :=
  ∀ fuel c rest, isNumberByte c = false →
    readValue (fuel + 1) (text ++ c :: rest) = some (value, c :: rest)

theorem writes_string (short : ShortEscapes) (s : List UInt8) :
    Writes (.string s) (quote :: (short.escape s ++ [quote])) := by
  intro fuel c rest _
  have hspace : isSpace quote = false := by decide
  have htext : quote :: (short.escape s ++ [quote]) ++ c :: rest =
      quote :: (short.escape s ++ quote :: c :: rest) := by simp
  rw [htext, readValue, List.dropWhile_cons_of_neg (by simp [hspace])]
  simp only [↓reduceIte, ShortEscapes.readString_escape, Option.map_some]

/-- A digit in front, and only bytes of numbers. -/
theorem writes_number {digit : UInt8} {text : List UInt8} (hdigit : isDigit digit = true)
    (hbytes : ∀ d ∈ text, isNumberByte d = true) (hnumber : isNumber (digit :: text) = true) :
    Writes (.number (digit :: text)) (digit :: text) := by
  intro fuel c rest hc
  have hall : ∀ d ∈ digit :: text, isNumberByte d = true :=
    List.forall_mem_cons.mpr ⟨by simp [isNumberByte, hdigit], hbytes⟩
  have hspan : (digit :: text ++ c :: rest).takeWhile isNumberByte = digit :: text := by
    rw [List.takeWhile_append_of_pos hall, List.takeWhile_cons_of_neg (by simp [hc]),
      List.append_nil]
  have hfront : ∀ d : UInt8, isDigit d = false → digit ≠ d := by
    rintro d hd rfl
    rw [hdigit] at hd
    cases hd
  have hspace : isSpace digit = false := by
    simp only [isSpace, decide_eq_false_iff_not, List.mem_cons, List.not_mem_nil, or_false, not_or]
    exact ⟨hfront _ (by decide), hfront _ (by decide), hfront _ (by decide), hfront _ (by decide)⟩
  rw [List.cons_append, readValue, List.dropWhile_cons_of_neg (by simp [hspace])]
  simp only [if_neg (hfront quote (by decide)), if_neg (hfront '\x7b'.toUInt8 (by decide)),
    if_neg (hfront '['.toUInt8 (by decide))]
  rw [← List.cons_append, readPlain, hspan, if_pos hnumber, List.drop_left]

/-- A decimal fraction is read as it is written. -/
theorem writes_fraction (n : Nat) {digits : List UInt8} (hne : digits ≠ [])
    (hdigits : ∀ b ∈ digits, isDigit b = true) :
    Writes (.number (decimal n ++ '.'.toUInt8 :: digits)) (decimal n ++ '.'.toUInt8 :: digits) := by
  have hnumber := isNumber_fraction n hne hdigits
  have hall : ∀ b ∈ decimal n, isDigit b = true := isDigit_of_mem_decimal
  obtain ⟨d, rest, hfront⟩ := exists_decimal_cons n
  rw [hfront, List.cons_append] at hnumber ⊢
  refine writes_number (hall d (hfront ▸ List.mem_cons_self)) (fun b hb => ?_) hnumber
  rcases List.mem_append.mp hb with hb | hb
  · simp [isNumberByte, hall b (hfront ▸ List.mem_cons_of_mem d hb)]
  · rcases List.mem_cons.mp hb with rfl | hb
    · decide
    · simp [isNumberByte, hdigits b hb]

/-- A member of an object, with a text that its value is read from. -/
structure Member where
  key : List UInt8
  value : Value
  text : List UInt8
  plain : ∀ b ∈ key, Plain b
  writes : Writes value text

namespace Member

def write (m : Member) : List UInt8 := quote :: (m.key ++ quote :: ':'.toUInt8 :: m.text)

def writeAll : List Member → List UInt8
  | [] => []
  | [m] => m.write
  | m :: m' :: ms => m.write ++ ','.toUInt8 :: writeAll (m' :: ms)

theorem readString_key (m : Member) (rest : List UInt8) :
    readString (m.key ++ quote :: rest) = some (m.key, rest) := by
  have hall := m.plain
  generalize m.key = key at hall ⊢
  induction key with
  | nil => exact readString_quote rest
  | cons b key ih =>
      obtain ⟨hb, hkey⟩ := List.forall_mem_cons.mp hall
      have hread := readAs_plain hb (key ++ quote :: rest)
      rw [List.singleton_append, ih hkey] at hread
      exact hread

/-- One member is read up to what stands behind its value. -/
theorem readMembers_write (m : Member) (fuel : Nat) (c : UInt8) (rest : List UInt8)
    (hc : isNumberByte c = false) :
    readMembers (fuel + 2) (m.write ++ c :: rest) =
      match expect ','.toUInt8 (c :: rest) with
      | some rest => (readMembers (fuel + 1) rest).map fun r => ((m.key, m.value) :: r.1, r.2)
      | none => (expect '\x7d'.toUInt8 (c :: rest)).map fun rest => ([(m.key, m.value)], rest) := by
  have hquote : isSpace quote = false := by decide
  have hcolon : isSpace ':'.toUInt8 = false := by decide
  have htext : m.write ++ c :: rest =
      quote :: (m.key ++ quote :: (':'.toUInt8 :: (m.text ++ c :: rest))) := by simp [write]
  rw [htext, readMembers, expect_self hquote]
  simp only [Option.bind_eq_bind, Option.bind_some, m.readString_key, expect_self hcolon,
    m.writes fuel c rest hc]

theorem readMembers_writeAll (m : Member) (ms : List Member) {fuel : Nat}
    (hfuel : ms.length < fuel) (rest : List UInt8) :
    readMembers (fuel + 1) (writeAll (m :: ms) ++ '\x7d'.toUInt8 :: rest) =
      some ((m :: ms).map fun m => (m.key, m.value), rest) := by
  have hbrace : isSpace '\x7d'.toUInt8 = false := by decide
  have hcomma : isSpace ','.toUInt8 = false := by decide
  induction ms generalizing m fuel with
  | nil =>
      obtain ⟨fuel, rfl⟩ : ∃ n, fuel = n + 1 := ⟨fuel - 1, by simp at hfuel; omega⟩
      rw [writeAll, readMembers_write m fuel _ rest (by decide),
        expect_other hbrace (by decide), expect_self hbrace]
      rfl
  | cons m' ms ih =>
      rw [List.length_cons] at hfuel
      obtain ⟨fuel, rfl⟩ : ∃ n, fuel = n + 1 := ⟨fuel - 1, by omega⟩
      rw [writeAll, List.append_assoc, List.cons_append,
        readMembers_write m fuel _ _ (by decide), expect_self hcomma]
      simp only [ih m' (show ms.length < fuel by omega)]
      rfl

theorem length_writeAll (m : Member) (ms : List Member) :
    ms.length < (writeAll (m :: ms)).length := by
  induction ms generalizing m with
  | nil => simp [writeAll, write]
  | cons m' ms ih =>
      have hrest := ih m'
      simp only [writeAll, List.length_append, List.length_cons] at hrest ⊢
      omega

/-- An object is read back with all of its members. -/
theorem parse_object (m : Member) (ms : List Member) :
    parse ('\x7b'.toUInt8 :: (writeAll (m :: ms) ++ ['\x7d'.toUInt8])) =
      some (.object ((m :: ms).map fun m => (m.key, m.value))) := by
  have hbrace : isSpace '\x7b'.toUInt8 = false := by decide
  have hquote : isSpace quote = false := by decide
  have hlen := length_writeAll m ms
  have hfront : ∃ text, writeAll (m :: ms) ++ ['\x7d'.toUInt8] = quote :: text := by
    cases ms with
    | nil => exact ⟨_, rfl⟩
    | cons m' ms => exact ⟨_, rfl⟩
  have hsome : expect '\x7d'.toUInt8 (writeAll (m :: ms) ++ ['\x7d'.toUInt8]) = none := by
    obtain ⟨text, htext⟩ := hfront
    rw [htext]
    exact expect_other hquote (by decide) text
  have hread := readMembers_writeAll m ms (Nat.lt_succ_of_lt hlen) []
  rw [parse, List.length_cons, List.length_append, List.length_singleton, readValue,
    List.dropWhile_cons_of_neg (by simp [hbrace])]
  simp only [show '\x7b'.toUInt8 ≠ quote by decide, ↓reduceIte, hsome, hread]
  rfl

end Member

end Acva.Json

import Acva.Core.Json
import Mathlib.Data.Bool.AllAny

/-! # Writing JSON texts

A value is written without white space between its parts, its strings and keys with the short
escapes of the writer. It is read back as it was, if its numbers are numbers.
-/

namespace Acva.Json

/-! ## Bytes of numbers -/

theorem isNumberByte_of_isDigit {b : UInt8} (h : isDigit b = true) : isNumberByte b = true := by
  rw [isNumberByte, h, Bool.true_or]

theorem forall_isNumberByte_of_isExponent {text : List UInt8} (h : isExponent text = true) :
    ∀ b ∈ text, isNumberByte b = true := by
  cases text with
  | nil => simp
  | cons e text =>
      simp only [isExponent, Bool.and_eq_true, decide_eq_true_eq] at h
      obtain ⟨he, -, hdigits⟩ := h
      have hfront : isNumberByte e = true := by
        rcases he with rfl | rfl
        · decide
        · decide
      refine List.forall_mem_cons.mpr ⟨hfront, ?_⟩
      cases text with
      | nil => simp
      | cons sign digits =>
          simp only at hdigits
          split at hdigits
          next hsign =>
            have hb : isNumberByte sign = true := by
              rcases hsign with rfl | rfl
              · decide
              · decide
            exact List.forall_mem_cons.mpr
              ⟨hb, fun b hb => isNumberByte_of_isDigit (List.all_eq_true.mp hdigits b hb)⟩
          next => exact fun b hb => isNumberByte_of_isDigit (List.all_eq_true.mp hdigits b hb)

theorem forall_isNumberByte_of_isFraction {text : List UInt8} (h : isFraction text = true) :
    ∀ b ∈ text, isNumberByte b = true := by
  cases text with
  | nil => simp
  | cons point text =>
      simp only [isFraction] at h
      split at h
      next hpoint =>
        rw [Bool.and_eq_true] at h
        have hb : isNumberByte point = true := by
          rw [hpoint]
          decide
        refine List.forall_mem_cons.mpr ⟨hb, fun b hb => ?_⟩
        rw [← List.takeWhile_append_dropWhile (p := isDigit) (l := text)] at hb
        rcases List.mem_append.mp hb with hb | hb
        · exact isNumberByte_of_isDigit (List.mem_takeWhile_imp hb)
        · exact forall_isNumberByte_of_isExponent h.2 b hb
      next => exact forall_isNumberByte_of_isExponent h

/-- Behind the sign. -/
theorem forall_isNumberByte_of_unsigned {text : List UInt8}
    (h : (isInteger (text.takeWhile isDigit) && isFraction (text.dropWhile isDigit)) = true) :
    ∀ b ∈ text, isNumberByte b = true := by
  intro b hb
  rw [Bool.and_eq_true] at h
  rw [← List.takeWhile_append_dropWhile (p := isDigit) (l := text)] at hb
  rcases List.mem_append.mp hb with hb | hb
  · exact isNumberByte_of_isDigit (List.mem_takeWhile_imp hb)
  · exact forall_isNumberByte_of_isFraction h.2 b hb

theorem forall_isNumberByte_of_isNumber {text : List UInt8} (h : isNumber text = true) :
    ∀ b ∈ text, isNumberByte b = true := by
  cases text with
  | nil => simp
  | cons sign text =>
      simp only [isNumber] at h
      split at h
      next hsign =>
        have hb : isNumberByte sign = true := by
          rw [hsign]
          decide
        exact List.forall_mem_cons.mpr ⟨hb, forall_isNumberByte_of_unsigned h⟩
      next => exact forall_isNumberByte_of_unsigned h

theorem isNumber_decimal (n : Nat) : isNumber (decimal n) = true := by
  have hall : ∀ b ∈ decimal n, isDigit b = true := isDigit_of_mem_decimal
  have htake : (decimal n).takeWhile isDigit = decimal n := List.takeWhile_eq_self_iff.mpr hall
  have hdrop : (decimal n).dropWhile isDigit = [] := List.dropWhile_eq_nil_iff.mpr hall
  have hbody : (isInteger ((decimal n).takeWhile isDigit) &&
      isFraction ((decimal n).dropWhile isDigit)) = true := by
    rw [htake, hdrop, isInteger_decimal]
    rfl
  obtain ⟨d, rest, hfront⟩ := exists_decimal_cons n
  have hsign : d ≠ '-'.toUInt8 := by
    rintro rfl
    have hd := hall _ (hfront ▸ List.mem_cons_self)
    revert hd
    decide
  rw [hfront] at hbody ⊢
  simp only [isNumber, if_neg hsign]
  exact hbody

/-! ## Strings without escapes -/

namespace ShortEscapes

variable {short : ShortEscapes}

/-- What can stand for itself is not in the table. -/
def Sparing (short : ShortEscapes) : Prop := ∀ row ∈ short.table, ¬Plain row.1

theorem escapeByte_of_plain (hshort : short.Sparing) {c : UInt8} (h : Plain c) :
    short.escapeByte c = [c] := by
  have hnone : short.table.lookup c = none := by
    cases hrow : short.table.lookup c with
    | none => rfl
    | some letter =>
        obtain ⟨before, after, heq, -⟩ := List.lookup_eq_some_iff.mp hrow
        exact absurd h (hshort (c, letter) (heq ▸ List.mem_append_right _ List.mem_cons_self))
  rw [escapeByte, hnone]
  exact if_neg (UInt8.not_lt.mpr h.1)

theorem escape_of_plain (hshort : short.Sparing) {s : List UInt8} (h : ∀ b ∈ s, Plain b) :
    short.escape s = s := by
  induction s with
  | nil => rfl
  | cons c s ih =>
      obtain ⟨hc, hs⟩ := List.forall_mem_cons.mp h
      rw [escape, List.flatMap_cons, escapeByte_of_plain hshort hc,
        show s.flatMap short.escapeByte = short.escape s from rfl, ih hs, List.singleton_append]

/-- Only what cannot stand for itself, of the bytes that are no control bytes. -/
def bare : ShortEscapes where
  table := [(quote, quote), (backslash, backslash)]
  reads := List.all_iff_forall_prop.mp (by decide)
  quoted := by decide
  backslashed := by decide

theorem escape_bare {s : List UInt8} (h : ∀ b ∈ s, Plain b) : bare.escape s = s := by
  refine escape_of_plain (fun row hrow => ?_) h
  simp only [bare, List.mem_cons, List.not_mem_nil, or_false] at hrow
  rcases hrow with rfl | rfl
  · exact fun hplain => hplain.2.1 rfl
  · exact fun hplain => hplain.2.2 rfl

end ShortEscapes

/-! ## Writing -/

section
variable (short : ShortEscapes)

def quoted (s : List UInt8) : List UInt8 := quote :: (short.escape s ++ [quote])

mutual

def render : Value → List UInt8
  | .null => ['n'.toUInt8, 'u'.toUInt8, 'l'.toUInt8, 'l'.toUInt8]
  | .bool true => ['t'.toUInt8, 'r'.toUInt8, 'u'.toUInt8, 'e'.toUInt8]
  | .bool false => ['f'.toUInt8, 'a'.toUInt8, 'l'.toUInt8, 's'.toUInt8, 'e'.toUInt8]
  | .number text => text
  | .string s => quoted short s
  | .array values => '['.toUInt8 :: (renderElements values ++ [']'.toUInt8])
  | .object members => '\x7b'.toUInt8 :: (renderMembers members ++ ['\x7d'.toUInt8])

def renderElements : List Value → List UInt8
  | [] => []
  | [value] => render value
  | value :: next :: values => render value ++ ','.toUInt8 :: renderElements (next :: values)

def renderMembers : List (List UInt8 × Value) → List UInt8
  | [] => []
  | [(key, value)] => quoted short key ++ ':'.toUInt8 :: render value
  | (key, value) :: next :: members =>
      quoted short key ++ ':'.toUInt8 :: (render value ++ ','.toUInt8 ::
        renderMembers (next :: members))

end

end

mutual

/-- Its numbers are numbers. -/
def Value.numeric : Value → Bool
  | .number text => isNumber text
  | .array values => elementsNumeric values
  | .object members => membersNumeric members
  | _ => true

def elementsNumeric : List Value → Bool
  | [] => true
  | value :: values => value.numeric && elementsNumeric values

def membersNumeric : List (List UInt8 × Value) → Bool
  | [] => true
  | (_, value) :: members => value.numeric && membersNumeric members

end

theorem renderMembers_cons (short : ShortEscapes) (m : List UInt8 × Value)
    (members : List (List UInt8 × Value)) :
    renderMembers short (m :: members) =
      quoted short m.1 ++ ':'.toUInt8 :: (render short m.2 ++
        members.flatMap fun m => ','.toUInt8 :: (quoted short m.1 ++
          ':'.toUInt8 :: render short m.2)) := by
  induction members generalizing m with
  | nil => rw [renderMembers, List.flatMap_nil, List.append_nil]
  | cons next members ih =>
      rw [renderMembers, ih next, List.flatMap_cons]
      simp

theorem membersNumeric_iff (members : List (List UInt8 × Value)) :
    membersNumeric members = true ↔ ∀ m ∈ members, m.2.numeric = true := by
  induction members with
  | nil => simp [membersNumeric]
  | cons m members ih => rw [membersNumeric, Bool.and_eq_true, ih, List.forall_mem_cons]

/-! ## Reading what was written -/

section
variable (short : ShortEscapes)

theorem render_word (value : Value) {b : UInt8} {word : List UInt8} (rest : List UInt8) (fuel : Nat)
    (hplain : isNumberByte b = false ∧ isSpace b = false ∧ b ≠ quote ∧ b ≠ '\x7b'.toUInt8 ∧
      b ≠ '['.toUInt8)
    (hread : readPlain (b :: (word ++ rest)) = some (value, rest)) :
    readValue (fuel + 1) (b :: word ++ rest) = some (value, rest) := by
  obtain ⟨-, hspace, hquote, hbrace, hbracket⟩ := hplain
  rw [List.cons_append, readValue, List.dropWhile_cons_of_neg (by simp [hspace])]
  simp only [if_neg hquote, if_neg hbrace, if_neg hbracket]
  exact hread

theorem readPlain_of_letter {b : UInt8} (rest : List UInt8) (hb : isNumberByte b = false) :
    readPlain (b :: rest) =
      (readWord ['t'.toUInt8, 'r'.toUInt8, 'u'.toUInt8, 'e'.toUInt8] (.bool true) (b :: rest)
        <|> readWord ['f'.toUInt8, 'a'.toUInt8, 'l'.toUInt8, 's'.toUInt8, 'e'.toUInt8]
          (.bool false) (b :: rest)
        <|> readWord ['n'.toUInt8, 'u'.toUInt8, 'l'.toUInt8, 'l'.toUInt8] .null (b :: rest)) := by
  rw [readPlain, List.takeWhile_cons_of_neg (by simp [hb])]
  rfl

theorem readValue_number {text rest : List UInt8} (fuel : Nat) (h : isNumber text = true)
    (hrest : ∀ c ∈ rest.head?, isNumberByte c = false) :
    readValue (fuel + 1) (text ++ rest) = some (.number text, rest) := by
  have hall := forall_isNumberByte_of_isNumber h
  have hnone : rest.takeWhile isNumberByte = [] := by
    cases rest with
    | nil => rfl
    | cons c rest => exact List.takeWhile_cons_of_neg (by simp [hrest c rfl])
  have hspan : (text ++ rest).takeWhile isNumberByte = text := by
    rw [List.takeWhile_append_of_pos hall, hnone, List.append_nil]
  cases text with
  | nil => cases h
  | cons b text =>
      have hb := hall b List.mem_cons_self
      have hother : ∀ c : UInt8, isNumberByte c = false → b ≠ c := by
        rintro c hc rfl
        rw [hb] at hc
        cases hc
      have hspace : isSpace b = false := by
        simp only [isSpace, decide_eq_false_iff_not, List.mem_cons, List.not_mem_nil, or_false,
          not_or]
        exact ⟨hother _ (by decide), hother _ (by decide), hother _ (by decide),
          hother _ (by decide)⟩
      rw [List.cons_append, readValue, List.dropWhile_cons_of_neg (by simp [hspace])]
      simp only [if_neg (hother quote (by decide)), if_neg (hother '\x7b'.toUInt8 (by decide)),
        if_neg (hother '['.toUInt8 (by decide))]
      rw [← List.cons_append, readPlain, hspan, if_pos h, List.drop_left]

/-- A value starts with a byte that ends neither white space nor an array. -/
theorem render_front {value : Value} (h : value.numeric = true) :
    ∃ b text, render short value = b :: text ∧ isSpace b = false ∧ b ≠ ']'.toUInt8 := by
  cases value with
  | null => exact ⟨_, _, by rw [render], by decide, by decide⟩
  | bool value =>
      cases value with
      | true => exact ⟨_, _, by rw [render], by decide, by decide⟩
      | false => exact ⟨_, _, by rw [render], by decide, by decide⟩
  | number text =>
      rw [Value.numeric] at h
      cases text with
      | nil => cases h
      | cons b text =>
          have hb := forall_isNumberByte_of_isNumber h b List.mem_cons_self
          refine ⟨b, text, by rw [render], ?_, ?_⟩
          · simp only [isSpace, decide_eq_false_iff_not, List.mem_cons, List.not_mem_nil,
              or_false]
            rintro (rfl | rfl | rfl | rfl) <;> exact absurd hb (by decide)
          · rintro rfl
            exact absurd hb (by decide)
  | string s => exact ⟨_, _, by rw [render, quoted], by decide, by decide⟩
  | array values => exact ⟨_, _, by rw [render], by decide, by decide⟩
  | object members => exact ⟨_, _, by rw [render], by decide, by decide⟩

theorem renderElements_front {value : Value} (values : List Value) (h : value.numeric = true) :
    ∃ b text, renderElements short (value :: values) = b :: text ∧ isSpace b = false ∧
      b ≠ ']'.toUInt8 := by
  obtain ⟨b, text, htext, hb⟩ := render_front short h
  cases values with
  | nil => exact ⟨b, text, by rw [renderElements, htext], hb⟩
  | cons next values =>
      exact ⟨b, text ++ ','.toUInt8 :: renderElements short (next :: values),
        by rw [renderElements, htext, List.cons_append], hb⟩

theorem renderMembers_front (m : List UInt8 × Value) (members : List (List UInt8 × Value)) :
    ∃ text, renderMembers short (m :: members) = quote :: text := by
  cases members with
  | nil => exact ⟨_, by rw [renderMembers, quoted, List.cons_append]⟩
  | cons next members => exact ⟨_, by rw [renderMembers, quoted, List.cons_append]⟩

theorem ends_number {c : UInt8} (h : isNumberByte c = false) (rest : List UInt8) :
    ∀ d ∈ (c :: rest).head?, isNumberByte d = false := by
  rintro d hd
  cases hd
  exact h

/-- One member is read up to what stands behind its value. -/
theorem readMembers_member (key : List UInt8) {value : Value} {fuel : Nat} {rest : List UInt8}
    (hvalue : readValue fuel (render short value ++ rest) = some (value, rest)) :
    readMembers (fuel + 1) (quoted short key ++ ':'.toUInt8 :: (render short value ++ rest)) =
      match expect ','.toUInt8 rest with
      | some rest => (readMembers fuel rest).map fun r => ((key, value) :: r.1, r.2)
      | none => (expect '\x7d'.toUInt8 rest).map fun rest => ([(key, value)], rest) := by
  have hquote : isSpace quote = false := by decide
  have hcolon : isSpace ':'.toUInt8 = false := by decide
  have htext : quoted short key ++ ':'.toUInt8 :: (render short value ++ rest) =
      quote :: (short.escape key ++ quote :: ':'.toUInt8 :: (render short value ++ rest)) := by
    simp [quoted]
  rw [htext, readMembers, expect_self hquote]
  cases hcomma : expect ','.toUInt8 rest with
  | none =>
      simp only [Option.bind_eq_bind, Option.bind_some, ShortEscapes.readString_escape,
        expect_self hcolon, hvalue, hcomma]
  | some next =>
      simp only [Option.bind_eq_bind, Option.bind_some, ShortEscapes.readString_escape,
        expect_self hcolon, hvalue, hcomma]

mutual

/-- The text of a value is read up to its end. -/
theorem readValue_render (value : Value) (h : value.numeric = true) (fuel : Nat)
    (hfuel : (render short value).length < fuel) (rest : List UInt8)
    (hrest : ∀ c ∈ rest.head?, isNumberByte c = false) :
    readValue fuel (render short value ++ rest) = some (value, rest) := by
  obtain ⟨fuel, rfl⟩ : ∃ n, fuel = n + 1 := ⟨fuel - 1, by omega⟩
  cases value with
  | null =>
      rw [render]
      refine render_word _ rest fuel (by decide) ?_
      rw [readPlain_of_letter _ (by decide)]
      rfl
  | bool value =>
      cases value with
      | true =>
          rw [render]
          refine render_word _ rest fuel (by decide) ?_
          rw [readPlain_of_letter _ (by decide)]
          rfl
      | false =>
          rw [render]
          refine render_word _ rest fuel (by decide) ?_
          rw [readPlain_of_letter _ (by decide)]
          rfl
  | number text =>
      rw [render]
      exact readValue_number fuel h hrest
  | string s =>
      have hspace : isSpace quote = false := by decide
      have htext : quoted short s ++ rest = quote :: (short.escape s ++ quote :: rest) := by
        simp [quoted]
      rw [render, htext, readValue, List.dropWhile_cons_of_neg (by simp [hspace])]
      simp only [↓reduceIte, ShortEscapes.readString_escape, Option.map_some]
  | array values =>
      have hspace : isSpace '['.toUInt8 = false := by decide
      have hend : isSpace ']'.toUInt8 = false := by decide
      rw [render, List.length_cons, List.length_append, List.length_singleton] at hfuel
      rw [render, List.cons_append, List.append_assoc, List.singleton_append, readValue,
        List.dropWhile_cons_of_neg (by simp [hspace])]
      simp only [if_neg (show '['.toUInt8 ≠ quote by decide),
        if_neg (show '['.toUInt8 ≠ '\x7b'.toUInt8 by decide), ↓reduceIte]
      cases values with
      | nil =>
          rw [renderElements, List.nil_append, expect_self hend]
      | cons value values =>
          rw [Value.numeric, elementsNumeric, Bool.and_eq_true] at h
          obtain ⟨b, text, hfront, hspaceB, hb⟩ := renderElements_front short values h.1
          have hmore : expect ']'.toUInt8
              (renderElements short (value :: values) ++ ']'.toUInt8 :: rest) = none := by
            rw [hfront]
            exact expect_other hspaceB hb _
          rw [hmore, readElements_render (value :: values) (List.cons_ne_nil _ _)
            (by rw [elementsNumeric, Bool.and_eq_true]; exact h) fuel (by omega) rest]
          rfl
  | object members =>
      have hspace : isSpace '\x7b'.toUInt8 = false := by decide
      have hend : isSpace '\x7d'.toUInt8 = false := by decide
      have hquote : isSpace quote = false := by decide
      rw [render, List.length_cons, List.length_append, List.length_singleton] at hfuel
      rw [render, List.cons_append, List.append_assoc, List.singleton_append, readValue,
        List.dropWhile_cons_of_neg (by simp [hspace])]
      simp only [if_neg (show '\x7b'.toUInt8 ≠ quote by decide), ↓reduceIte]
      cases members with
      | nil =>
          rw [renderMembers, List.nil_append, expect_self hend]
      | cons m members =>
          obtain ⟨text, hfront⟩ := renderMembers_front short m members
          have hmore : expect '\x7d'.toUInt8
              (renderMembers short (m :: members) ++ '\x7d'.toUInt8 :: rest) = none := by
            rw [hfront]
            exact expect_other hquote (by decide) _
          rw [hmore, readMembers_render (m :: members) (List.cons_ne_nil _ _)
            (by rw [Value.numeric] at h; exact h) fuel (by omega) rest]
          rfl

theorem readElements_render (values : List Value) (hne : values ≠ [])
    (h : elementsNumeric values = true) (fuel : Nat)
    (hfuel : (renderElements short values).length + 1 < fuel) (rest : List UInt8) :
    readElements fuel (renderElements short values ++ ']'.toUInt8 :: rest) =
      some (values, rest) := by
  have hend : isSpace ']'.toUInt8 = false := by decide
  have hcomma : isSpace ','.toUInt8 = false := by decide
  obtain ⟨fuel, rfl⟩ : ∃ n, fuel = n + 1 := ⟨fuel - 1, by omega⟩
  match values with
  | [] => exact absurd rfl hne
  | [value] =>
      rw [elementsNumeric, Bool.and_eq_true] at h
      rw [renderElements] at hfuel
      rw [renderElements, readElements,
        readValue_render value h.1 fuel (by omega) _ (ends_number (by decide) rest)]
      simp only [Option.bind_eq_bind, Option.bind_some, expect_self hend, Option.map_some,
        expect_other hend (show ']'.toUInt8 ≠ ','.toUInt8 by decide)]
  | value :: next :: values =>
      rw [elementsNumeric, Bool.and_eq_true] at h
      rw [renderElements, List.length_append, List.length_cons] at hfuel
      rw [renderElements, List.append_assoc, List.cons_append, readElements,
        readValue_render value h.1 fuel (by omega) _ (ends_number (by decide) _)]
      simp only [Option.bind_eq_bind, Option.bind_some, expect_self hcomma, Option.map_some,
        readElements_render (next :: values) (List.cons_ne_nil _ _) h.2 fuel (by omega) rest]

theorem readMembers_render (members : List (List UInt8 × Value)) (hne : members ≠ [])
    (h : membersNumeric members = true) (fuel : Nat)
    (hfuel : (renderMembers short members).length < fuel) (rest : List UInt8) :
    readMembers fuel (renderMembers short members ++ '\x7d'.toUInt8 :: rest) =
      some (members, rest) := by
  have hend : isSpace '\x7d'.toUInt8 = false := by decide
  have hcomma : isSpace ','.toUInt8 = false := by decide
  obtain ⟨fuel, rfl⟩ : ∃ n, fuel = n + 1 := ⟨fuel - 1, by omega⟩
  match members with
  | [] => exact absurd rfl hne
  | [(key, value)] =>
      rw [membersNumeric, Bool.and_eq_true] at h
      rw [renderMembers, List.length_append, List.length_cons] at hfuel
      rw [renderMembers, List.append_assoc, List.cons_append, readMembers_member short key
        (readValue_render value h.1 fuel (by omega) _ (ends_number (by decide) rest))]
      simp only [expect_self hend, Option.map_some,
        expect_other hend (show '\x7d'.toUInt8 ≠ ','.toUInt8 by decide)]
  | (key, value) :: next :: members =>
      rw [membersNumeric, Bool.and_eq_true] at h
      rw [renderMembers, List.length_append, List.length_cons, List.length_append,
        List.length_cons] at hfuel
      rw [renderMembers, List.append_assoc, List.cons_append, List.append_assoc,
        List.cons_append, readMembers_member short key
          (readValue_render value h.1 fuel (by omega) _ (ends_number (by decide) _))]
      simp only [expect_self hcomma, Option.map_some,
        readMembers_render (next :: members) (List.cons_ne_nil _ _) h.2 fuel (by omega) rest]

end

theorem no_control_of_isNumberByte {b : UInt8} (h : isNumberByte b = true) : 0x20 ≤ b := by
  have hdigit : isDigit b = true → 0x20 ≤ b := by
    intro hb
    simp only [isDigit, decide_eq_true_eq] at hb
    exact UInt8.le_trans (by decide) hb.1
  simp only [isNumberByte, Bool.or_eq_true, decide_eq_true_eq, List.mem_cons, List.not_mem_nil,
    or_false] at h
  rcases h with h | rfl | rfl | rfl | rfl | rfl
  · exact hdigit h
  · decide
  · decide
  · decide
  · decide
  · decide

theorem no_control_quoted (s : List UInt8) : ∀ b ∈ quoted short s, 0x20 ≤ b := by
  have hquote : 0x20 ≤ quote := by decide
  have hstring : StringBody (short.escape s) := ShortEscapes.stringBody_escape s
  have hbody := hstring.no_control
  intro b hb
  simp only [quoted, List.mem_cons, List.mem_append, List.not_mem_nil, or_false] at hb
  rcases hb with rfl | hb | rfl
  · exact hquote
  · exact hbody b hb
  · exact hquote

mutual

/-- A value is written without control bytes, so on one line. -/
theorem no_control_render (value : Value) (h : value.numeric = true) :
    ∀ b ∈ render short value, 0x20 ≤ b := by
  cases value with
  | null => exact List.all_iff_forall_prop.mp (by rw [render]; decide)
  | bool value =>
      cases value with
      | true => exact List.all_iff_forall_prop.mp (by rw [render]; decide)
      | false => exact List.all_iff_forall_prop.mp (by rw [render]; decide)
  | number text =>
      rw [render]
      exact fun b hb => no_control_of_isNumberByte (forall_isNumberByte_of_isNumber h b hb)
  | string s =>
      rw [render]
      exact no_control_quoted short s
  | array values =>
      rw [Value.numeric] at h
      rw [render]
      refine List.forall_mem_cons.mpr ⟨by decide, List.forall_mem_append.mpr
        ⟨no_control_renderElements values h, List.forall_mem_singleton.mpr (by decide)⟩⟩
  | object members =>
      rw [Value.numeric] at h
      rw [render]
      refine List.forall_mem_cons.mpr ⟨by decide, List.forall_mem_append.mpr
        ⟨no_control_renderMembers members h, List.forall_mem_singleton.mpr (by decide)⟩⟩

theorem no_control_renderElements (values : List Value) (h : elementsNumeric values = true) :
    ∀ b ∈ renderElements short values, 0x20 ≤ b := by
  match values with
  | [] => exact fun b hb => by rw [renderElements] at hb; cases hb
  | [value] =>
      rw [elementsNumeric, Bool.and_eq_true] at h
      rw [renderElements]
      exact no_control_render value h.1
  | value :: next :: values =>
      rw [elementsNumeric, Bool.and_eq_true] at h
      rw [renderElements]
      exact List.forall_mem_append.mpr ⟨no_control_render value h.1,
        List.forall_mem_cons.mpr ⟨by decide, no_control_renderElements (next :: values) h.2⟩⟩

theorem no_control_renderMembers (members : List (List UInt8 × Value))
    (h : membersNumeric members = true) : ∀ b ∈ renderMembers short members, 0x20 ≤ b := by
  match members with
  | [] => exact fun b hb => by rw [renderMembers] at hb; cases hb
  | [(key, value)] =>
      rw [membersNumeric, Bool.and_eq_true] at h
      rw [renderMembers]
      exact List.forall_mem_append.mpr ⟨no_control_quoted short key,
        List.forall_mem_cons.mpr ⟨by decide, no_control_render value h.1⟩⟩
  | (key, value) :: next :: members =>
      rw [membersNumeric, Bool.and_eq_true] at h
      rw [renderMembers]
      exact List.forall_mem_append.mpr ⟨no_control_quoted short key,
        List.forall_mem_cons.mpr ⟨by decide, List.forall_mem_append.mpr
          ⟨no_control_render value h.1, List.forall_mem_cons.mpr
            ⟨by decide, no_control_renderMembers (next :: members) h.2⟩⟩⟩⟩

end

/-- What is written is read back. -/
theorem parse_render (value : Value) (h : value.numeric = true) :
    parse (render short value) = some value := by
  have hread := readValue_render short value h _ (Nat.lt_succ_self _) [] (by simp)
  rw [List.append_nil] at hread
  rw [parse, hread]
  rfl

end

end Acva.Json

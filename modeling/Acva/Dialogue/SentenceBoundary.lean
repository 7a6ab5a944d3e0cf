import Mathlib.Data.List.DropRight
import Acva.Dialogue.SentenceSplitter

/-! # The boundaries of sentences

The specification of the splitter is about the text: which full stops belong to an
abbreviation, a number, an ellipsis or a list marker, and what follows a terminator. Where
white space follows, the text before the stop decides.
-/

namespace Acva.Dialogue

/-! ## The specification

`before` and `after` are the text on both sides of a terminator `t`.
-/

def isDot (c : UInt8) : Bool := c = byte '.'

def isAlnum (c : UInt8) : Bool := isDigit c || isLower c || isUpper c

def isWordByte (c : UInt8) : Bool := isLower c || isUpper c || c = byte '.' || isDigit c

/-- The word around the dot is a listed abbreviation, with or without its last dot. -/
def InAbbreviation (before after : Bytes) : Prop :=
  ∃ w ∈ kAbbreviations,
    (before.rtakeWhile isWordByte ++ byte '.' :: after.takeWhile isWordByte).map toLower = w ∨
    (before.rtakeWhile isWordByte ++ byte '.' :: after.takeWhile isWordByte).map toLower =
      w ++ [byte '.']

/-- A decimal or a version number goes on after the dot. -/
def InNumber (before after : Bytes) : Prop :=
  (∃ d ∈ before.getLast?, isDigit d = true) ∧ ∃ d ∈ after.head?, isDigit d = true

/-- The dot is one of three or more. -/
def InEllipsis (before after : Bytes) : Prop :=
  3 ≤ (before.rtakeWhile isDot).length + 1 + (after.takeWhile isDot).length

/-- One to three letters or digits at the start of a line. -/
def AfterListMarker (before : Bytes) : Prop :=
  1 ≤ (before.rtakeWhile isAlnum).length ∧ (before.rtakeWhile isAlnum).length ≤ 3 ∧
    ∀ c ∈ (before.rdropWhile isAlnum).getLast?, c = byte '\n'

def Excepted (before : Bytes) (t : UInt8) (after : Bytes) : Prop :=
  t = byte '.' ∧ (InAbbreviation before after ∨ InNumber before after ∨
    InEllipsis before after ∨ AfterListMarker before)

/-- A sentence may end here. -/
structure MayEnd (before : Bytes) (t : UInt8) (after : Bytes) : Prop where
  terminator : isTerminator t = true
  space : ∃ w ∈ after.head?, isWhitespace w = true
  free : ¬ Excepted before t after

/-- A sentence has to end here. -/
structure MustEnd (before : Bytes) (t : UInt8) (after : Bytes) : Prop extends
    MayEnd before t after where
  capital : ∃ c ∈ (after.dropWhile isWhitespace).head?, isUpper c = true

instance (before after : Bytes) : Decidable (InAbbreviation before after) :=
  inferInstanceAs (Decidable (∃ w ∈ kAbbreviations, _ ∨ _))

instance (before after : Bytes) : Decidable (InNumber before after) :=
  inferInstanceAs (Decidable ((∃ d ∈ _, isDigit d = true) ∧ ∃ d ∈ _, isDigit d = true))

instance (before after : Bytes) : Decidable (InEllipsis before after) :=
  inferInstanceAs (Decidable (3 ≤ _))

instance (before : Bytes) : Decidable (AfterListMarker before) :=
  inferInstanceAs (Decidable (1 ≤ _ ∧ _ ≤ 3 ∧ ∀ c ∈ _, c = byte '\n'))

instance (before : Bytes) (t : UInt8) (after : Bytes) : Decidable (Excepted before t after) :=
  inferInstanceAs (Decidable (_ ∧ (_ ∨ _ ∨ _ ∨ _)))

instance (before : Bytes) (t : UInt8) (after : Bytes) : Decidable (MustEnd before t after) :=
  decidable_of_iff (isTerminator t = true ∧ (∃ w ∈ after.head?, isWhitespace w = true) ∧
      (¬ Excepted before t after) ∧
      ∃ c ∈ (after.dropWhile isWhitespace).head?, isUpper c = true)
    ⟨fun ⟨ht, hspace, hfree, hcapital⟩ => ⟨⟨ht, hspace, hfree⟩, hcapital⟩,
      fun h => ⟨h.terminator, h.space, h.free, h.capital⟩⟩

/-! ## Bytes -/

/-- Sentences are cut behind such bytes only, or before white space. -/
def isInner (c : UInt8) : Bool := ! (isWhitespace c || c = byte ',')

theorem whitespace_excludes {c : UInt8} (h : isWhitespace c = true) :
    isTerminator c = false ∧ isDigit c = false ∧ isWordByte c = false ∧ isDot c = false := by
  simp only [isWhitespace, Bool.or_eq_true, decide_eq_true_eq] at h
  rcases h with ((rfl | rfl) | rfl) | rfl <;> decide

theorem terminator_excludes {c : UInt8} (h : isTerminator c = true) :
    isWhitespace c = false ∧ isDigit c = false := by
  simp only [isTerminator, Bool.or_eq_true, decide_eq_true_eq] at h
  rcases h with (rfl | rfl) | rfl <;> decide

theorem isInner_excludes {c : UInt8} (h : isInner c = false) :
    isWordByte c = false ∧ isAlnum c = false := by
  simp only [isInner, isWhitespace, Bool.not_eq_false', Bool.or_eq_true,
    decide_eq_true_eq] at h
  rcases h with (((rfl | rfl) | rfl) | rfl) | rfl <;> decide

theorem digit_ne_dot {c : UInt8} (h : isDigit c = true) : c ≠ byte '.' := by
  rintro rfl
  revert h
  decide

theorem abbreviation_last {w : Bytes} (h : w ∈ kAbbreviations) :
    w.getLast? ≠ some (byte '.') := by
  revert w
  decide

theorem exists_cons_of_head {P : UInt8 → Prop} {after : Bytes} (h : ∃ w ∈ after.head?, P w) :
    ∃ w rest, after = w :: rest ∧ P w := by
  obtain ⟨w, hw, hP⟩ := h
  cases after with
  | nil => cases hw
  | cons b rest =>
      cases hw
      exact ⟨w, rest, rfl, hP⟩

/-! ## Before white space -/

/-- A dot after `before` is none of the exceptions, if white space follows. -/
structure FreeDot (before : Bytes) : Prop where
  word : (before.rtakeWhile isWordByte).map toLower ∉ kAbbreviations
  dots : (before.rtakeWhile isDot).length ≤ 1
  line : ¬ AfterListMarker before

theorem excepted_iff {before after : Bytes} {t : UInt8}
    (hspace : ∃ w ∈ after.head?, isWhitespace w = true) :
    Excepted before t after ↔ t = byte '.' ∧ ¬ FreeDot before := by
  obtain ⟨w, rest, rfl, hws⟩ := exists_cons_of_head hspace
  obtain ⟨-, hdigit, hword, hdot⟩ := whitespace_excludes hws
  have habbreviation : InAbbreviation before (w :: rest) ↔
      (before.rtakeWhile isWordByte).map toLower ∈ kAbbreviations := by
    have htoken : (before.rtakeWhile isWordByte ++
        byte '.' :: (w :: rest).takeWhile isWordByte).map toLower =
        (before.rtakeWhile isWordByte).map toLower ++ [byte '.'] := by
      rw [List.takeWhile_cons_of_neg (by simp [hword]), List.map_append]
      rfl
    unfold InAbbreviation
    rw [htoken]
    constructor
    · rintro ⟨v, hv, hwith | hwithout⟩
      · exact absurd (by rw [← hwith, List.getLast?_concat]) (abbreviation_last hv)
      · rwa [(List.append_left_inj [byte '.']).mp hwithout]
    · intro h
      exact ⟨_, h, Or.inr rfl⟩
  have hnumber : ¬ InNumber before (w :: rest) := by
    rintro ⟨-, d, hd, hisDigit⟩
    cases hd
    rw [hdigit] at hisDigit
    cases hisDigit
  have hellipsis : InEllipsis before (w :: rest) ↔
      ¬ (before.rtakeWhile isDot).length ≤ 1 := by
    rw [InEllipsis, List.takeWhile_cons_of_neg (by simp [hdot]), List.length_nil]
    omega
  unfold Excepted
  rw [habbreviation, hellipsis]
  constructor
  · rintro ⟨ht, hin⟩
    refine ⟨ht, fun hfree => ?_⟩
    rcases hin with h | h | h | h
    · exact hfree.word h
    · exact hnumber h
    · exact h hfree.dots
    · exact hfree.line h
  · rintro ⟨ht, hnot⟩
    refine ⟨ht, ?_⟩
    by_contra hnone
    push Not at hnone
    exact hnot ⟨hnone.1, hnone.2.2.1, hnone.2.2.2⟩

theorem MayEnd.freeDot {before after : Bytes} {t : UInt8} (h : MayEnd before t after)
    (ht : t = byte '.') : FreeDot before := by
  by_contra hnot
  exact h.free ((excepted_iff h.space).mpr ⟨ht, hnot⟩)

end Acva.Dialogue

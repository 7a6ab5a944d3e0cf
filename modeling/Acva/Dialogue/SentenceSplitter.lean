import Acva.Event.Event

/-! # The sentence splitter

Cuts a token stream into sentences byte by byte. A terminator is held back for
one byte, so that a run of dots or a decimal can still be told from an end of
sentence; inside a code fence nothing is cut.
-/

namespace Acva.Dialogue

structure SentenceSplitterConfig where
  maxSentenceChars : Nat := 600
  detectCodeFences : Bool := true
deriving DecidableEq, Repr

inductive SplitMode
  | normal
  | inCodeFence
deriving DecidableEq, Repr

/-- `pendingTermPos = none` is `npos`. -/
structure SentenceSplitter where
  cfg : SentenceSplitterConfig := {}
  buf : Bytes := []
  mode : SplitMode := .normal
  charsSinceTerminator : Nat := 0
  pendingTermPos : Option Nat := none
  pendingDotRun : Nat := 0
deriving DecidableEq, Repr

/-! ## Character classes -/

def kFenceOpen : Bytes := [byte '\x60', byte '\x60', byte '\x60']

/-- Words whose dot does not end a sentence. -/
def kAbbreviations : List Bytes :=
  ["dr", "mr", "mrs", "ms", "prof", "sr", "jr", "e.g", "i.e", "etc", "vs", "vol", "no", "fig",
    "approx", "st", "ave", "blvd", "rd", "u.s", "u.k", "u.s.a", "a.m", "p.m"].map ascii

def isLower (c : UInt8) : Bool := byte 'a' ≤ c && c ≤ byte 'z'

def isUpper (c : UInt8) : Bool := byte 'A' ≤ c && c ≤ byte 'Z'

def isDigit (c : UInt8) : Bool := byte '0' ≤ c && c ≤ byte '9'

def isTerminator (c : UInt8) : Bool := c = byte '.' || c = byte '!' || c = byte '?'

def isWhitespace (c : UInt8) : Bool :=
  c = byte ' ' || c = byte '\t' || c = byte '\n' || c = byte '\r'

def toLower (c : UInt8) : UInt8 := if isUpper c then c + (byte 'a' - byte 'A') else c

def trimLeading (s : Bytes) : Bytes := s.dropWhile isWhitespace

/-- The sentence cut out of `head`, unless only white space is left of it. -/
def emit (head : Bytes) : List Bytes :=
  if trimLeading head = [] then [] else [trimLeading head]

namespace SentenceSplitter

/-! ## What the buffer ends with -/

/-- The maximal run of `p` bytes before the final dot, and what stands before the run. -/
def wordBeforeDot (p : UInt8 → Bool) (buf : Bytes) : Bytes × Bytes :=
  let rev := buf.dropLast.reverse
  ((rev.takeWhile p).reverse, (rev.dropWhile p).reverse)

def endsWithDot (buf : Bytes) : Bool := 2 ≤ buf.length && buf.getLast? = some (byte '.')

def lastWordIsAbbreviation (s : SentenceSplitter) : Bool :=
  endsWithDot s.buf &&
    let word := (wordBeforeDot (fun c => isLower c || isUpper c || c = byte '.' || isDigit c)
      s.buf).1
    word ≠ [] && kAbbreviations.contains (word.map toLower)

def bufferEndsWithListMarker (s : SentenceSplitter) : Bool :=
  endsWithDot s.buf &&
    let (word, before) := wordBeforeDot (fun c => isDigit c || isLower c || isUpper c) s.buf
    1 ≤ word.length && word.length ≤ 3 && before.getLast?.all isWhitespace

/-- Three dots, or the UTF-8 ellipsis. -/
def bufferEndsWithEllipsis (s : SentenceSplitter) : Bool :=
  let last := s.buf.drop (s.buf.length - 3)
  last = [byte '.', byte '.', byte '.'] || last = [0xE2, 0x80, 0xA6]

def bufferEndsWithDecimal (s : SentenceSplitter) : Bool :=
  endsWithDot s.buf && s.buf.dropLast.getLast?.any isDigit

/-! ## Steps -/

def clearPending (s : SentenceSplitter) : SentenceSplitter :=
  { s with pendingTermPos := none, pendingDotRun := 0 }

def bumpChars (s : SentenceSplitter) : SentenceSplitter :=
  { s with charsSinceTerminator := s.charsSinceTerminator + 1 }

def flushBuffer (s : SentenceSplitter) : SentenceSplitter × List Bytes :=
  ({ s.clearPending with buf := [], charsSinceTerminator := 0 }, emit s.buf)

/-- Split after the held-back terminator; the dot run is left as it is. -/
def resolvePending (pos : Nat) (s : SentenceSplitter) : SentenceSplitter × List Bytes :=
  let tail := s.buf.drop (pos + 1)
  ({ s with buf := tail, charsSinceTerminator := tail.length, pendingTermPos := none },
    emit (s.buf.take (pos + 1)))

/-- Append the byte and toggle the mode on a third backtick. -/
def append (c : UInt8) (s : SentenceSplitter) : SentenceSplitter :=
  let buf := s.buf ++ [c]
  let fence := s.cfg.detectCodeFences && buf.drop (buf.length - 3) = kFenceOpen
  { s with
    buf := buf
    mode := if fence then (if s.mode = .normal then .inCodeFence else .normal) else s.mode }

/-- What a byte does once no terminator is held back; it is already in the buffer. -/
def classify (c : UInt8) (s : SentenceSplitter) : SentenceSplitter × List Bytes :=
  if isTerminator c then
    if s.lastWordIsAbbreviation || s.bufferEndsWithListMarker then (s.clearPending, [])
    else if s.bufferEndsWithDecimal then
      ({ s with pendingTermPos := some (s.buf.length - 1), pendingDotRun := 1 }, [])
    else if s.bufferEndsWithEllipsis then (s.clearPending, [])
    else
      ({ s with
        pendingTermPos := some (s.buf.length - 1)
        pendingDotRun := if c = byte '.' then 1 else 0 }, [])
  else
    let s := s.bumpChars
    if s.cfg.maxSentenceChars ≤ s.charsSinceTerminator ∧ (isWhitespace c ∨ c = byte ',') then
      s.flushBuffer
    else (s, [])

/-- One round of the loop of `push`. -/
def pushByte (c : UInt8) (s : SentenceSplitter) : SentenceSplitter × List Bytes :=
  let s := s.append c
  if s.mode = .inCodeFence then (s.bumpChars, [])
  else
    match s.pendingTermPos with
    | none => s.classify c
    | some pos =>
        -- the run of dots goes on
        if c = byte '.' ∧ s.buf.getD pos 0 = byte '.' then
          ({ s with pendingDotRun := s.pendingDotRun + 1 }, [])
        else if isDigit c then (s.clearPending.bumpChars, [])
        else if 2 ≤ s.pendingDotRun then (s.clearPending.bumpChars, [])
        else
          let (s, out) := s.resolvePending pos
          let (s, out') := s.classify c
          (s, out ++ out')

/-- The sentences are appended to `out` in the source. -/
def push : Bytes → SentenceSplitter → SentenceSplitter × List Bytes
  | [], s => (s, [])
  | c :: cs, s =>
      let (s, out) := s.pushByte c
      let (s, out') := s.push cs
      (s, out ++ out')

def flush (s : SentenceSplitter) : SentenceSplitter × List Bytes :=
  let s := s.clearPending
  if s.buf = [] then ({ s with charsSinceTerminator := 0 }, []) else s.flushBuffer

/-- How the stream is cut into tokens does not matter. -/
theorem push_append (xs ys : Bytes) (s : SentenceSplitter) :
    s.push (xs ++ ys) =
      (((s.push xs).1.push ys).1, (s.push xs).2 ++ ((s.push xs).1.push ys).2) := by
  induction xs generalizing s with
  | nil => rfl
  | cons c cs ih => simp [push, ih]

/-! ## Sentences are not empty -/

theorem emit_ne_nil {head x : Bytes} (h : x ∈ emit head) : x ≠ [] := by
  unfold emit at h
  split at h
  · simp at h
  next hne =>
    rw [List.mem_singleton] at h
    rwa [h]

theorem classify_ne_nil {c : UInt8} {s : SentenceSplitter} {x : Bytes}
    (h : x ∈ (s.classify c).2) : x ≠ [] := by
  unfold classify at h
  split at h
  · repeat' split at h
    all_goals simp at h
  · dsimp only at h
    split at h
    · exact emit_ne_nil h
    · simp at h

theorem pushByte_ne_nil {c : UInt8} {s : SentenceSplitter} {x : Bytes}
    (h : x ∈ (s.pushByte c).2) : x ≠ [] := by
  unfold pushByte at h
  dsimp only at h
  split at h
  · simp at h
  · split at h
    · exact classify_ne_nil h
    · split at h
      · simp at h
      · split at h
        · simp at h
        · split at h
          · simp at h
          · rcases List.mem_append.mp h with hout | hout
            · exact emit_ne_nil hout
            · exact classify_ne_nil hout

theorem push_ne_nil {cs : Bytes} {s : SentenceSplitter} {x : Bytes}
    (h : x ∈ (s.push cs).2) : x ≠ [] := by
  induction cs generalizing s with
  | nil => simp [push] at h
  | cons c cs ih =>
      rcases List.mem_append.mp h with hout | hout
      · exact pushByte_ne_nil hout
      · exact ih hout

theorem flush_ne_nil {s : SentenceSplitter} {x : Bytes} (h : x ∈ s.flush.2) : x ≠ [] := by
  unfold flush at h
  dsimp only at h
  split at h
  · simp at h
  · exact emit_ne_nil h

theorem emit_eq_nil_iff {head : Bytes} : emit head = [] ↔ trimLeading head = [] := by
  unfold emit
  split
  next htrim => exact iff_of_true rfl htrim
  next htrim => exact iff_of_false (List.cons_ne_nil _ _) htrim

theorem flush_eq_nil_iff (s : SentenceSplitter) : s.flush.2 = [] ↔ trimLeading s.buf = [] := by
  by_cases hbuf : s.buf = []
  · have hempty : s.flush.2 = [] := congrArg Prod.snd (if_pos hbuf)
    rw [hempty, hbuf]
    exact iff_of_true rfl rfl
  · have hemit : s.flush.2 = emit s.buf := congrArg Prod.snd (if_neg hbuf)
    rw [hemit, emit_eq_nil_iff]

/-- The rest of the buffer is one sentence, or none. -/
theorem flush_length_le (s : SentenceSplitter) : s.flush.2.length ≤ 1 := by
  by_cases hbuf : s.buf = []
  · have hempty : s.flush.2 = [] := congrArg Prod.snd (if_pos hbuf)
    rw [hempty]
    exact Nat.zero_le 1
  · have hemit : s.flush.2 = emit s.buf := congrArg Prod.snd (if_neg hbuf)
    rw [hemit, emit]
    split
    · exact Nat.zero_le 1
    · exact Nat.le_refl 1

/-- A hesitation and a decimal do not split, the end of a sentence does. -/
example : (({} : SentenceSplitter).push (ascii "Well... 3.14 is right. Bye")).2 =
    [ascii "Well... 3.14 is right."] := by decide

end SentenceSplitter

/-- The sentences that a splitter has for a whole text. -/
def splitSentences (cfg : SentenceSplitterConfig) (text : Bytes) : List Bytes :=
  let (s, pushed) := ({ cfg := cfg } : SentenceSplitter).push text
  pushed ++ s.flush.2

theorem splitSentences_ne_nil {cfg : SentenceSplitterConfig} {text x : Bytes}
    (h : x ∈ splitSentences cfg text) : x ≠ [] := by
  rcases List.mem_append.mp h with hpushed | hflushed
  · exact SentenceSplitter.push_ne_nil hpushed
  · exact SentenceSplitter.flush_ne_nil hflushed

end Acva.Dialogue

import Acva.Core.TrailingRun
import Acva.Dialogue.SentenceBoundary
import Acva.Dialogue.SentenceTrace

/-! # Which terminators end a sentence

The splitter decides from its buffer and from the one byte that comes next. Along a text it
follows the specification as long as it cuts at white space, and takes no word for a list
marker and no dots for an ellipsis where a sentence has to end.
-/

namespace Acva.Dialogue

open Acva.TrailingRun

namespace SentenceSplitter

variable {cfg : SentenceSplitterConfig} {pre : Bytes} {c : UInt8} {s : SentenceSplitter}

/-- What `push` emits for a text in chunks, against the specification. -/
structure FollowsSpec (cfg : SentenceSplitterConfig) (chunks : List Bytes) : Prop where
  emitted : (({ cfg := cfg } : SentenceSplitter).pushAll chunks).2 =
    (emissions 0 chunks.flatten { cfg := cfg }).map Emission.sentence
  located : ∀ e ∈ emissions 0 chunks.flatten { cfg := cfg },
    e.sentence <:+ chunks.flatten.take e.stop
  ends : ∀ e ∈ emissions 0 chunks.flatten { cfg := cfg }, e.forced = false →
    ∃ before t after, chunks.flatten = before ++ t :: after ∧ e.stop = before.length + 1 ∧
      MayEnd before t after
  complete : ∀ before t after, chunks.flatten = before ++ t :: after → MustEnd before t after →
    ∃ e ∈ emissions 0 chunks.flatten { cfg := cfg },
      e.forced = false ∧ e.stop = before.length + 1

/-- Only white space, a digit, or a dot after a dot, arrives while one terminator is held
back. -/
def CutsAtSpace (cfg : SentenceSplitterConfig) (text : Bytes) : Prop :=
  ∀ pre c post, text = pre ++ c :: post → (stateAfter cfg pre).cutAt c ≠ none →
    isWhitespace c = true

/-- `t` arrives after what passes for a list marker, or while dots are held back that it
prolongs or that are an ellipsis already. -/
def Swallows (t : UInt8) (s : SentenceSplitter) : Prop :=
  (s.pendingTermPos = none ∧ (s.append t).bufferEndsWithListMarker = true) ∨
    ∃ pos, s.pendingTermPos = some pos ∧
      ((t = byte '.' ∧ (s.append t).buf.getD pos 0 = byte '.') ∨ 2 ≤ s.pendingDotRun)

instance (t : UInt8) (s : SentenceSplitter) : Decidable (s.Swallows t) :=
  inferInstanceAs (Decidable ((_ ∧ _ = true) ∨ ∃ pos, s.pendingTermPos = some pos ∧ _))

/-- A short word passes for a list marker. -/
example : (stateAfter {} (ascii "The cat")).Swallows (byte '.') := by decide +kernel

/-- Nothing that has to end a sentence is swallowed. -/
def KeepsEnds (cfg : SentenceSplitterConfig) (text : Bytes) : Prop :=
  ∀ before t after, text = before ++ t :: after → MustEnd before t after →
    ¬ (stateAfter cfg before).Swallows t

/-! ## The tests on the buffer -/

theorem endsWithDot_append (h : endsWithDot (s.append c).buf = true) : c = byte '.' := by
  simp only [endsWithDot, append_buf, List.getLast?_concat, Bool.and_eq_true,
    decide_eq_true_eq, Option.some.injEq] at h
  exact h.2

/-- A run that is not empty makes the buffer long enough for the tests. -/
theorem endsWithDot_of_run {p : UInt8 → Bool} (h : s.buf.rtakeWhile p ≠ []) :
    endsWithDot (s.append (byte '.')).buf = true := by
  have hbuf : s.buf ≠ [] := by
    rintro hnil
    rw [hnil] at h
    exact h (List.rtakeWhile_nil _)
  have hlength := List.length_pos_iff.mpr hbuf
  simp only [endsWithDot, append_buf, List.getLast?_concat, List.length_append,
    List.length_singleton, Bool.and_eq_true, decide_eq_true_eq, and_true]
  omega

theorem wordBeforeDot_append (p : UInt8 → Bool) :
    wordBeforeDot p (s.append c).buf = (s.buf.rtakeWhile p, s.buf.rdropWhile p) := by
  simp only [wordBeforeDot, append_buf, List.dropLast_concat]
  rfl

theorem abbreviation_append : (s.append (byte '.')).lastWordIsAbbreviation = true ↔
    (s.buf.rtakeWhile isWordByte).map toLower ∈ kAbbreviations := by
  have hword := wordBeforeDot_append (c := byte '.') (s := s) isWordByte
  unfold lastWordIsAbbreviation
  rw [Bool.and_eq_true]
  change _ ∧ (decide ((wordBeforeDot isWordByte _).1 ≠ []) &&
    kAbbreviations.contains ((wordBeforeDot isWordByte _).1.map toLower)) = true ↔ _
  rw [hword, Bool.and_eq_true, decide_eq_true_eq, List.contains_iff_mem]
  constructor
  · rintro ⟨-, -, hmem⟩
    exact hmem
  · intro hmem
    have hne : s.buf.rtakeWhile isWordByte ≠ [] := by
      intro hnil
      rw [hnil] at hmem
      revert hmem
      decide
    exact ⟨endsWithDot_of_run hne, hne, hmem⟩

theorem listMarker_append : (s.append (byte '.')).bufferEndsWithListMarker = true ↔
    1 ≤ (s.buf.rtakeWhile isAlnum).length ∧ (s.buf.rtakeWhile isAlnum).length ≤ 3 ∧
      (s.buf.rdropWhile isAlnum).getLast?.all isWhitespace = true := by
  have hword := wordBeforeDot_append (c := byte '.') (s := s) isAlnum
  unfold bufferEndsWithListMarker
  rw [Bool.and_eq_true]
  change _ ∧ (decide (1 ≤ (wordBeforeDot isAlnum _).1.length) &&
    decide ((wordBeforeDot isAlnum _).1.length ≤ 3) &&
    (wordBeforeDot isAlnum _).2.getLast?.all isWhitespace) = true ↔ _
  rw [hword, Bool.and_eq_true, Bool.and_eq_true, decide_eq_true_eq, decide_eq_true_eq]
  constructor
  · rintro ⟨-, ⟨hone, hthree⟩, hline⟩
    exact ⟨hone, hthree, hline⟩
  · rintro ⟨hone, hthree, hline⟩
    exact ⟨endsWithDot_of_run (List.length_pos_iff.mp hone), ⟨hone, hthree⟩, hline⟩

/-- What ends a word of an abbreviation or a list marker is not a dot. -/
theorem last_ne_dot (h : (s.append (byte '.')).lastWordIsAbbreviation = true ∨
    (s.append (byte '.')).bufferEndsWithListMarker = true) :
    ∃ front x, s.buf = front ++ [x] ∧ isDot x = false := by
  rcases List.eq_nil_or_concat s.buf with hnil | ⟨front, x, hbuf⟩
  · rcases h with h | h
    · rw [abbreviation_append, hnil] at h
      exact absurd h (by decide)
    · rw [listMarker_append, hnil] at h
      exact absurd h.1 (by decide)
  · rw [List.concat_eq_append] at hbuf
    refine ⟨front, x, hbuf, ?_⟩
    by_contra hdot
    have hx : x = byte '.' := by simpa [isDot] using hdot
    subst hx
    rcases h with h | h
    · rw [abbreviation_append, hbuf, List.rtakeWhile_concat_pos _ _ _ (by decide),
        List.map_append] at h
      apply abbreviation_last h
      rw [List.map_singleton, List.getLast?_concat]
      rfl
    · rw [listMarker_append, hbuf, List.rtakeWhile_concat_neg _ _ _ (by decide)] at h
      exact absurd h.1 (by decide)

/-- The last bytes of the UTF-8 ellipsis are no terminators. -/
theorem ellipsis_append (hc : isTerminator c = true)
    (h : (s.append c).bufferEndsWithEllipsis = true) :
    c = byte '.' ∧ ∃ front, s.buf = front ++ [byte '.', byte '.'] := by
  have hsplit := List.take_append_drop ((s.append c).buf.length - 3) (s.append c).buf
  simp only [bufferEndsWithEllipsis, Bool.or_eq_true, decide_eq_true_eq] at h
  rcases h with h | h
  · rw [h, append_buf] at hsplit
    rw [show [byte '.', byte '.', byte '.'] = [byte '.', byte '.'] ++ [byte '.'] from rfl,
      ← List.append_assoc] at hsplit
    obtain ⟨hfront, hlast⟩ := List.append_inj' hsplit rfl
    cases hlast
    exact ⟨rfl, _, hfront.symm⟩
  · rw [h, append_buf] at hsplit
    rw [show ([0xE2, 0x80, 0xA6] : Bytes) = [0xE2, 0x80] ++ [0xA6] from rfl,
      ← List.append_assoc] at hsplit
    obtain ⟨-, hlast⟩ := List.append_inj' hsplit rfl
    cases hlast
    exact absurd hc (by decide)

/-! ## The state along a text without fences -/

theorem append_mode (hmode : s.mode = .normal) (hsuffix : s.buf <:+ pre)
    (hfence : ¬ kFenceOpen <:+: pre ++ [c]) : (s.append c).mode = .normal := by
  have hopen : (s.buf ++ [c]).drop ((s.buf ++ [c]).length - 3) ≠ kFenceOpen := by
    intro h
    obtain ⟨gone, rfl⟩ := hsuffix
    apply hfence
    rw [← h, List.append_assoc]
    exact ((List.drop_suffix _ _).trans (List.suffix_append _ _)).isInfix
  simp only [append, hopen, hmode, decide_false, Bool.and_false, Bool.false_eq_true,
    if_false]

/-- What holds however the terminators stand. -/
structure Sane (pre : Bytes) (s : SentenceSplitter) : Prop where
  mode : s.mode = .normal
  suffix : s.buf <:+ pre
  held : ∀ pos, s.pendingTermPos = some pos → pos < s.buf.length ∧
    isTerminator (s.buf.getD pos 0) = true ∧
    (1 ≤ s.pendingDotRun ↔ s.buf.getD pos 0 = byte '.')

theorem Sane.append (h : Sane pre s) (hfence : ¬ kFenceOpen <:+: pre ++ [c]) :
    (s.append c).mode = .normal ∧ (s.append c).buf <:+ pre ++ [c] := by
  refine ⟨append_mode h.mode h.suffix hfence, ?_⟩
  obtain ⟨gone, rfl⟩ := h.suffix
  rw [List.append_assoc]
  exact List.suffix_append _ _

theorem Sane.byteStep (h : Sane pre s) (hfence : ¬ kFenceOpen <:+: pre ++ [c]) :
    s.ByteStep c := by
  apply SentenceSplitter.byteStep
  rw [(h.append hfence).1]
  decide

theorem getD_append {pos : Nat} (h : pos < s.buf.length) :
    (s.append c).buf.getD pos 0 = s.buf.getD pos 0 :=
  List.getD_append _ _ _ _ h

/-- A state that is classified holds nothing back, and ends with the byte. -/
theorem Sane.classify (hmode : s.mode = .normal) (hsuffix : s.buf <:+ pre)
    (hpending : s.pendingTermPos = none) (hlast : s.buf.getLast? = some c) :
    Sane pre (s.classify c).1 := by
  cases hc : isTerminator c with
  | true =>
      cases terminatorStep hlast hc with
      | ignored hwhy hstep =>
          rw [hstep]
          exact ⟨hmode, hsuffix, fun _ hpos => by cases hpos⟩
      | held habbreviation hmarker hstep =>
          rw [hstep]
          refine ⟨hmode, hsuffix, fun pos hpos => ?_⟩
          cases hpos
          obtain ⟨front, hbuf⟩ := List.getLast?_eq_some_iff.mp hlast
          have hget : s.buf.getD (s.buf.length - 1) 0 = c := by
            simp [hbuf]
          refine ⟨by simp [hbuf], by rwa [hget], ?_⟩
          change 1 ≤ (if c = byte '.' then 1 else 0) ↔ s.buf.getD (s.buf.length - 1) 0 = byte '.'
          rw [hget]
          split
          next hdot => exact iff_of_true (Nat.le_refl 1) hdot
          next hdot => exact iff_of_false (by decide) hdot
  | false =>
      cases textStep hc with
      | text hstep =>
          rw [hstep]
          refine ⟨hmode, hsuffix, fun pos hpos => ?_⟩
          have hnone : s.bumpChars.pendingTermPos = none := hpending
          rw [hnone] at hpos
          cases hpos
      | flushed hsep hstep =>
          rw [hstep]
          exact ⟨hmode, List.nil_suffix, fun _ hpos => by cases hpos⟩

theorem drop_append {pos : Nat} (h : pos < s.buf.length) :
    (s.buf ++ [c]).drop (pos + 1) = s.buf.drop (pos + 1) ++ [c] :=
  List.drop_append_of_le_length h

theorem Sane.pushByte (h : Sane pre s) (hfence : ¬ kFenceOpen <:+: pre ++ [c]) :
    Sane (pre ++ [c]) (s.pushByte c).1 := by
  obtain ⟨hmode, hsuffix⟩ := h.append hfence
  cases h.byteStep hfence with
  | classified hpending hcut hstep =>
      rw [hstep]
      exact Sane.classify hmode hsuffix hpending List.getLast?_concat
  | dotRun pos hpending hcut hc hdot hstep =>
      obtain ⟨hlt, hterm, -⟩ := h.held pos hpending
      rw [hstep]
      refine ⟨hmode, hsuffix, fun pos' hpos => ?_⟩
      have hpos' : some pos = some pos' := hpending.symm.trans hpos
      cases hpos'
      refine ⟨?_, ?_, ?_⟩
      · rw [append_buf, List.length_append]
        exact Nat.lt_add_right _ hlt
      · rwa [getD_append hlt]
      · exact iff_of_true (Nat.le_add_left 1 _) hdot
  | kept pos hpending hcut hdot hwhy hstep =>
      rw [hstep]
      exact ⟨hmode, hsuffix, fun _ hpos => by cases hpos⟩
  | cut pos hpending hcut hdot hrun hstep =>
      have hlt := (h.held pos hpending).1
      rw [hstep]
      refine Sane.classify hmode ((List.drop_suffix _ _).trans hsuffix) rfl ?_
      change ((s.buf ++ [c]).drop (pos + 1)).getLast? = some c
      rw [drop_append hlt, List.getLast?_concat]

theorem stateAfter_sane (hfence : ¬ kFenceOpen <:+: pre) : Sane pre (stateAfter cfg pre) := by
  induction pre using List.reverseRecOn with
  | nil => exact ⟨rfl, List.nil_suffix, fun _ hpos => by cases hpos⟩
  | append_singleton pre c ih =>
      have hpre : ¬ kFenceOpen <:+: pre := fun h =>
        hfence (h.trans (List.prefix_append pre [c]).isInfix)
      rw [stateAfter_concat]
      exact (ih hpre).pushByte hfence

/-! ## Cuts at white space

The buffer then begins at a break of the text, so that its tests see whole words.
-/

/-- What the buffer and the terminator held back say about the text. -/
structure Tracks (pre : Bytes) (s : SentenceSplitter) : Prop where
  cut : ∃ gone, pre = gone ++ s.buf ∧ Sealed isInner gone s.buf
  quiet : s.pendingTermPos = none → (pre.rtakeWhile isDot).length ≤ 1
  mark : ∀ pos, s.pendingTermPos = some pos → s.pendingDotRun < 2 →
    pos + 1 = s.buf.length ∧ ∃ before t, pre = before ++ [t] ∧ isTerminator t = true ∧
      (t = byte '.' → FreeDot before)

theorem rtakeWhile_dots (hc : isDot c = false) : (pre ++ [c]).rtakeWhile isDot = [] :=
  List.rtakeWhile_concat_neg _ _ _ (by simp [hc])

theorem not_terminator_not_dot (hc : isTerminator c = false) : isDot c = false := by
  cases hdot : isDot c with
  | false => rfl
  | true =>
      have hc' : c = byte '.' := by simpa [isDot] using hdot
      rw [hc'] at hc
      exact absurd hc (by decide)

/-- The tests on the buffer miss nothing. -/
theorem freeDot (hcut : ∃ gone, pre = gone ++ s.buf ∧ Sealed isInner gone s.buf)
    (habbreviation : (s.append (byte '.')).lastWordIsAbbreviation = false)
    (hmarker : (s.append (byte '.')).bufferEndsWithListMarker = false)
    (hdots : (pre.rtakeWhile isDot).length ≤ 1) : FreeDot pre := by
  obtain ⟨gone, rfl, hseal⟩ := hcut
  have hwords := hseal.mono fun _ h => (isInner_excludes h).1
  have halnum := hseal.mono fun _ h => (isInner_excludes h).2
  refine ⟨?_, hdots, ?_⟩
  · rw [rtakeWhile_append hwords, ← abbreviation_append, habbreviation]
    exact Bool.false_ne_true
  · rintro ⟨hone, hthree, hline⟩
    rw [rtakeWhile_append halnum] at hone hthree
    rw [rdropWhile_append halnum] at hline
    have hfires : (s.append (byte '.')).bufferEndsWithListMarker = true := by
      refine listMarker_append.mpr ⟨hone, hthree, ?_⟩
      cases hlast : (s.buf.rdropWhile isAlnum).getLast? with
      | none => rfl
      | some b =>
          have hb : b = byte '\n' := by
            apply hline
            rw [List.getLast?_append, hlast]
            rfl
          rw [hb]
          decide
    rw [hmarker] at hfires
    cases hfires

theorem ellipsis_dots (hpre : s.buf <:+ pre) (hc : isTerminator c = true)
    (h : (s.append c).bufferEndsWithEllipsis = true) : 2 ≤ (pre.rtakeWhile isDot).length := by
  obtain ⟨gone, rfl⟩ := hpre
  obtain ⟨-, front, hbuf⟩ := ellipsis_append hc h
  have hdot : isDot (byte '.') = true := by decide
  rw [hbuf, show [byte '.', byte '.'] = [byte '.'] ++ [byte '.'] from rfl,
    ← List.append_assoc, ← List.append_assoc, List.rtakeWhile_concat_pos _ _ _ hdot,
    List.rtakeWhile_concat_pos _ _ _ hdot]
  simp

/-- Outside a held terminator the dots before `c` are at most one; an ignored dot is alone. -/
theorem ignored_dots (hpre : s.buf <:+ pre) (hquiet : (pre.rtakeWhile isDot).length ≤ 1)
    (hc : isTerminator c = true)
    (hwhy : (s.append c).lastWordIsAbbreviation = true ∨
      (s.append c).bufferEndsWithListMarker = true ∨
      (s.append c).bufferEndsWithEllipsis = true) :
    ((pre ++ [c]).rtakeWhile isDot).length ≤ 1 := by
  cases hdot : isDot c with
  | false =>
      rw [rtakeWhile_dots hdot]
      exact Nat.zero_le 1
  | true =>
      have hc' : c = byte '.' := by simpa [isDot] using hdot
      subst hc'
      rw [List.rtakeWhile_concat_pos _ _ _ hdot, List.length_append, List.length_singleton]
      rcases or_assoc.mpr hwhy with hword | hellipsis
      · obtain ⟨gone, rfl⟩ := hpre
        obtain ⟨front, x, hbuf, hx⟩ := last_ne_dot hword
        rw [hbuf, ← List.append_assoc, rtakeWhile_dots hx]
        exact Nat.le_refl 1
      · have htwo := ellipsis_dots hpre hc hellipsis
        omega

/-- A byte of text, and the forced flush behind a break. -/
theorem Tracks.classify_text (hcut : ∃ gone, pre ++ [c] = gone ++ s.buf ∧
      Sealed isInner gone s.buf) (hpending : s.pendingTermPos = none)
    (hc : isTerminator c = false) :
    Tracks (pre ++ [c]) (s.classify c).1 := by
  have hdots : ((pre ++ [c]).rtakeWhile isDot).length ≤ 1 := by
    rw [rtakeWhile_dots (not_terminator_not_dot hc)]
    exact Nat.zero_le 1
  cases textStep hc with
  | text hstep =>
      rw [hstep]
      refine ⟨hcut, fun _ => hdots, fun pos hpos => ?_⟩
      have hnone : s.bumpChars.pendingTermPos = none := hpending
      rw [hnone] at hpos
      cases hpos
  | flushed hsep hstep =>
      rw [hstep]
      refine ⟨⟨pre ++ [c], (List.append_nil _).symm, Sealed.of_last ?_⟩, fun _ => hdots,
        fun _ hpos => by cases hpos⟩
      rcases hsep with hspace | rfl
      · simp [isInner, hspace]
      · decide

theorem Tracks.classify_terminator (h : Tracks pre s) (hpending : s.pendingTermPos = none)
    (hc : isTerminator c = true) : Tracks (pre ++ [c]) ((s.append c).classify c).1 := by
  obtain ⟨gone, hpre, hseal⟩ := h.cut
  have hcut : ∃ gone, pre ++ [c] = gone ++ (s.append c).buf ∧
      Sealed isInner gone (s.append c).buf :=
    ⟨gone, by rw [hpre, List.append_assoc, append_buf], hseal.append⟩
  have hdots := h.quiet hpending
  cases terminatorStep (s := s.append c) List.getLast?_concat hc with
  | ignored hwhy hstep =>
      rw [hstep]
      have hsuffix : s.buf <:+ pre := ⟨gone, hpre.symm⟩
      exact ⟨hcut, fun _ => ignored_dots hsuffix hdots hc hwhy, fun _ hpos => by cases hpos⟩
  | held habbreviation hmarker hstep =>
      rw [hstep]
      refine ⟨hcut, (fun hpos => by cases hpos), fun pos hpos _ => ?_⟩
      cases hpos
      refine ⟨?_, pre, c, rfl, hc, ?_⟩
      · exact Nat.sub_add_cancel (by simp)
      · rintro rfl
        exact freeDot h.cut habbreviation hmarker hdots

theorem Tracks.pushByte (hsane : Sane pre s) (h : Tracks pre s)
    (hfence : ¬ kFenceOpen <:+: pre ++ [c]) (hspace : s.cutAt c ≠ none → isWhitespace c = true) :
    Tracks (pre ++ [c]) (s.pushByte c).1 := by
  obtain ⟨gone, hpre, hseal⟩ := h.cut
  have hcut : ∃ gone, pre ++ [c] = gone ++ (s.append c).buf ∧
      Sealed isInner gone (s.append c).buf :=
    ⟨gone, by rw [hpre, List.append_assoc, append_buf], hseal.append⟩
  cases hsane.byteStep hfence with
  | classified hpending hnone hstep =>
      rw [hstep]
      cases hc : isTerminator c with
      | true => exact h.classify_terminator hpending hc
      | false => exact Tracks.classify_text hcut hpending hc
  | dotRun pos hpending hnone hc hdot hstep =>
      obtain ⟨hlt, -, hrun⟩ := hsane.held pos hpending
      have hone := hrun.mpr ((getD_append hlt).symm.trans hdot)
      rw [hstep]
      refine ⟨hcut, fun hpos => ?_, fun _ _ htwo => ?_⟩
      · exact absurd (hpending.symm.trans hpos) (by simp)
      · exact absurd htwo (Nat.not_lt_of_le (Nat.succ_le_succ hone))
  | kept pos hpending hnone hdot hwhy hstep =>
      obtain ⟨hlt, -, hrun⟩ := hsane.held pos hpending
      have hc : isDot c = false := by
        rcases hwhy with hdigit | htwo
        · simpa [isDot] using digit_ne_dot hdigit
        · have hheld := hrun.mp (Nat.le_of_succ_le htwo)
          simpa [isDot] using fun heq => hdot ⟨heq, (getD_append hlt).trans hheld⟩
      rw [hstep]
      refine ⟨hcut, fun _ => ?_, fun _ hpos => by cases hpos⟩
      rw [rtakeWhile_dots hc]
      exact Nat.zero_le 1
  | cut pos hpending hcutAt hdot hrun hstep =>
      obtain ⟨hlength, -⟩ := h.mark pos hpending hrun
      have hws := hspace (by rw [hcutAt]; simp)
      have htail : (s.buf ++ [c]).drop (pos + 1) = [c] := by
        rw [hlength, List.drop_left]
      rw [hstep]
      refine Tracks.classify_text ⟨pre, ?_, Or.inr ⟨c, ?_, ?_⟩⟩ rfl (whitespace_excludes hws).1
      · exact congrArg (pre ++ ·) htail.symm
      · exact congrArg List.head? htail
      · simp [isInner, hws]

/-- Along a text that is cut at white space only. -/
theorem stateAfter_tracks (hfence : ¬ kFenceOpen <:+: pre) (hspace : CutsAtSpace cfg pre) :
    Tracks pre (stateAfter cfg pre) := by
  induction pre using List.reverseRecOn with
  | nil =>
      exact ⟨⟨[], rfl, Sealed.nil⟩, fun _ => Nat.zero_le 1, fun _ hpos => by cases hpos⟩
  | append_singleton pre c ih =>
      have hpre : ¬ kFenceOpen <:+: pre := fun h =>
        hfence (h.trans (List.prefix_append pre [c]).isInfix)
      have hcuts : CutsAtSpace cfg pre := by
        rintro before b after rfl hcut
        exact hspace before b (after ++ [c]) (by simp) hcut
      rw [stateAfter_concat]
      exact Tracks.pushByte (stateAfter_sane hpre) (ih hpre hcuts) hfence
        (hspace pre c [] rfl)

/-! ## One terminator -/

/-- White space splits after a terminator that is held back alone. -/
theorem cutAt_of_held {pos : Nat} (hmode : (s.append c).mode = .normal)
    (hpending : s.pendingTermPos = some pos) (hrun : s.pendingDotRun < 2)
    (hc : isWhitespace c = true) : s.cutAt c = some pos := by
  obtain ⟨hterm, hdigit, -, hdot⟩ := whitespace_excludes hc
  have hfence : (s.append c).mode ≠ .inCodeFence := by rw [hmode]; decide
  have hdot' : ¬ (c = byte '.' ∧ (s.append c).buf.getD pos 0 = byte '.') := by
    rintro ⟨rfl, -⟩
    exact absurd hdot (by decide)
  rw [cutAt, if_neg hfence, hpending]
  refine (if_neg hdot').trans ((if_neg ?_).trans (if_neg (Nat.not_le_of_lt hrun)))
  rw [hdigit]
  exact Bool.false_ne_true

/-- A terminator that may end a sentence is held back alone, unless it is swallowed. -/
theorem held_of_mayEnd {t : UInt8} {after : Bytes} (hsane : Sane pre s) (h : Tracks pre s)
    (hfence : ¬ kFenceOpen <:+: pre ++ [t]) (hend : MayEnd pre t after)
    (hspace : s.cutAt t ≠ none → isWhitespace t = true) (hkeeps : ¬ s.Swallows t) :
    ∃ pos, (s.pushByte t).1.pendingTermPos = some pos ∧
      (s.pushByte t).1.pendingDotRun < 2 := by
  have ht := hend.terminator
  obtain ⟨hnotSpace, hnotDigit⟩ := terminator_excludes ht
  cases hsane.byteStep hfence with
  | classified hpending hnone hstep =>
      rw [hstep]
      cases terminatorStep (s := s.append t) List.getLast?_concat ht with
      | ignored hwhy hclassify =>
          rcases hwhy with hword | hmarker | hellipsis
          · -- the word in the buffer is the word in the text
            have hdot : t = byte '.' := by
              have hword' := hword
              unfold lastWordIsAbbreviation at hword'
              exact endsWithDot_append (Bool.and_eq_true _ _ ▸ hword').1
            subst hdot
            obtain ⟨gone, rfl, hseal⟩ := h.cut
            have hwords := hseal.mono fun _ hx => (isInner_excludes hx).1
            refine absurd (abbreviation_append.mp hword) ?_
            rw [← rtakeWhile_append hwords]
            exact (hend.freeDot rfl).word
          · exact absurd (Or.inl ⟨hpending, hmarker⟩) hkeeps
          · have htwo := ellipsis_dots hsane.suffix ht hellipsis
            have hone := h.quiet hpending
            omega
      | held habbreviation hmarker hclassify =>
          rw [hclassify]
          refine ⟨_, rfl, ?_⟩
          change (if t = byte '.' then 1 else 0) < 2
          split <;> decide
  | dotRun pos hpending hnone hc hdot hstep =>
      exact absurd (Or.inr ⟨pos, hpending, Or.inl ⟨hc, hdot⟩⟩) hkeeps
  | kept pos hpending hnone hdot hwhy hstep =>
      rcases hwhy with hdigit | htwo
      · rw [hnotDigit] at hdigit
        cases hdigit
      · exact absurd (Or.inr ⟨pos, hpending, Or.inr htwo⟩) hkeeps
  | cut pos hpending hcut hdot hrun hstep =>
      have hws := hspace (by rw [hcut]; simp)
      rw [hnotSpace] at hws
      cases hws

/-- What is swallowed is not held back alone. -/
theorem not_held_of_swallows {t : UInt8} {pos : Nat} (hsane : Sane pre s)
    (hfence : ¬ kFenceOpen <:+: pre ++ [t]) (ht : isTerminator t = true)
    (hswallows : s.Swallows t) (hpos : (s.pushByte t).1.pendingTermPos = some pos) :
    2 ≤ (s.pushByte t).1.pendingDotRun := by
  cases hsane.byteStep hfence with
  | classified hpending hnone hstep =>
      rw [hstep] at hpos ⊢
      cases terminatorStep (s := s.append t) List.getLast?_concat ht with
      | ignored hwhy hclassify =>
          rw [hclassify] at hpos
          cases hpos
      | held habbreviation hmarker hclassify =>
          rcases hswallows with ⟨-, hfires⟩ | ⟨pos', hpending', -⟩
          · rw [hmarker] at hfires
            cases hfires
          · rw [hpending] at hpending'
            cases hpending'
  | dotRun pos' hpending hnone hc hdot hstep =>
      obtain ⟨hlt, -, hrun⟩ := hsane.held pos' hpending
      have hone := hrun.mpr ((getD_append hlt).symm.trans hdot)
      rw [hstep]
      exact Nat.succ_le_succ hone
  | kept pos' hpending hnone hdot hwhy hstep =>
      rw [hstep] at hpos
      cases hpos
  | cut pos' hpending hcut hdot hrun hstep =>
      rcases hswallows with ⟨hnone, -⟩ | ⟨pos'', hpending', hdots | htwo⟩
      · rw [hpending] at hnone
        cases hnone
      · rw [hpending] at hpending'
        cases hpending'
        exact absurd hdots hdot
      · exact absurd htwo (Nat.not_le_of_lt hrun)

/-! ## The whole text -/

theorem mem_trace {text : Bytes} {e : Emission} :
    e ∈ emissions 0 text { cfg := cfg } ↔ ∃ pre c post, text = pre ++ c :: post ∧
      (e.stop = pre.length ∧ e.forced = false ∧ e.sentence ∈ (stateAfter cfg pre).resolved c ∨
        e.stop = pre.length + 1 ∧ e.forced = true ∧
          e.sentence ∈ (stateAfter cfg pre).flushed c) := by
  rw [mem_emissions]
  refine exists_congr fun pre => exists_congr fun c => exists_congr fun post =>
    and_congr_right fun _ => ?_
  rw [Nat.zero_add, emissionsAt, List.mem_append, List.mem_map, List.mem_map]
  refine or_congr ⟨?_, ?_⟩ ⟨?_, ?_⟩
  · rintro ⟨x, hx, rfl⟩
    exact ⟨rfl, rfl, hx⟩
  · rintro ⟨hstop, hforced, hx⟩
    refine ⟨e.sentence, hx, ?_⟩
    rw [← hstop, ← hforced]
  · rintro ⟨x, hx, rfl⟩
    exact ⟨rfl, rfl, hx⟩
  · rintro ⟨hstop, hforced, hx⟩
    refine ⟨e.sentence, hx, ?_⟩
    rw [← hstop, ← hforced]

/-- The same position, seen from the terminator and from the byte after it. -/
theorem split_next {before after post : Bytes} {t : UInt8}
    (h : before ++ t :: after = pre ++ c :: post) (hlength : pre.length = before.length + 1) :
    pre = before ++ [t] ∧ after = c :: post := by
  have h' : (before ++ [t]) ++ after = pre ++ c :: post := by simpa using h
  obtain ⟨hpre, hafter⟩ := List.append_inj h' (by simp [hlength])
  exact ⟨hpre.symm, hafter⟩

theorem fence_mono {post : Bytes} (hfence : ¬ kFenceOpen <:+: pre ++ post) :
    ¬ kFenceOpen <:+: pre :=
  fun h => hfence (h.trans (List.prefix_append _ _).isInfix)

theorem CutsAtSpace.mono {post : Bytes} (h : CutsAtSpace cfg (pre ++ post)) :
    CutsAtSpace cfg pre := by
  rintro before b after rfl
  exact h before b (after ++ post) (by simp)

/-- Every cut shows in the trace. -/
theorem cutsAtSpace_of_follows {chunks : List Bytes}
    (hfence : ¬ kFenceOpen <:+: chunks.flatten) (h : FollowsSpec cfg chunks) :
    CutsAtSpace cfg chunks.flatten := by
  intro pre c post htext hcut
  obtain ⟨pos, hpos⟩ := Option.ne_none_iff_exists'.mp hcut
  have hsane : Sane pre (stateAfter cfg pre) := by
    rw [htext] at hfence
    exact stateAfter_sane (fence_mono hfence)
  obtain ⟨hlt, hterm, -⟩ := hsane.held pos (cutAt_some hpos).1
  obtain ⟨x, hx⟩ := resolved_ne_nil hpos hlt (terminator_excludes hterm).1
  have hmem : (⟨x, pre.length, false⟩ : Emission) ∈
      emissions 0 chunks.flatten { cfg := cfg } :=
    mem_trace.mpr ⟨pre, c, post, htext, Or.inl ⟨rfl, rfl, hx⟩⟩
  obtain ⟨before, t, after, hsplit, hstop, hend⟩ := h.ends _ hmem rfl
  obtain ⟨-, rfl⟩ := split_next (hsplit.symm.trans htext) hstop
  obtain ⟨w, hw, hws⟩ := hend.space
  cases hw
  exact hws

theorem keepsEnds_of_follows {chunks : List Bytes}
    (hfence : ¬ kFenceOpen <:+: chunks.flatten) (h : FollowsSpec cfg chunks) :
    KeepsEnds cfg chunks.flatten := by
  intro before t after htext hend hswallows
  obtain ⟨e, he, hforced, hstop⟩ := h.complete before t after htext hend
  obtain ⟨pre, c, post, hsplit, ⟨hstop', -, hx⟩ | ⟨-, hforced', -⟩⟩ := mem_trace.mp he
  · obtain ⟨rfl, rfl⟩ := split_next (htext.symm.trans hsplit) (hstop'.symm.trans hstop)
    obtain ⟨pos, hcut, -⟩ := mem_resolved hx
    obtain ⟨hpending, hrun⟩ := cutAt_some hcut
    rw [hsplit] at hfence
    have hfence' := fence_mono hfence
    rw [stateAfter_concat] at hpending hrun
    have htwo := not_held_of_swallows (stateAfter_sane (fence_mono hfence')) hfence'
      hend.terminator hswallows hpending
    exact absurd hrun (Nat.not_lt_of_le htwo)
  · rw [hforced] at hforced'
    cases hforced'

theorem located_of_cutsAtSpace {chunks : List Bytes} {e : Emission}
    (hfence : ¬ kFenceOpen <:+: chunks.flatten) (hspace : CutsAtSpace cfg chunks.flatten)
    (he : e ∈ emissions 0 chunks.flatten { cfg := cfg }) :
    e.sentence <:+ chunks.flatten.take e.stop := by
  obtain ⟨pre, c, post, htext, hat⟩ := mem_trace.mp he
  rw [htext] at hfence hspace
  have hsane : Sane pre (stateAfter cfg pre) := stateAfter_sane (fence_mono hfence)
  rcases hat with ⟨hstop, -, hx⟩ | ⟨hstop, -, hx⟩
  · -- the byte that cuts stays in the buffer
    have htracks := stateAfter_tracks (fence_mono hfence) hspace.mono
    obtain ⟨pos, hcut, hsuffix⟩ := mem_resolved hx
    obtain ⟨hpending, hrun⟩ := cutAt_some hcut
    rw [(htracks.mark pos hpending hrun).1, List.take_left] at hsuffix
    rw [htext, hstop, List.take_left]
    exact hsuffix.trans hsane.suffix
  · have htake : chunks.flatten.take (pre.length + 1) = pre ++ [c] := by
      rw [htext, List.take_length_add_append]
      rfl
    obtain ⟨gone, hgone⟩ := hsane.suffix
    rw [hstop, htake]
    refine (mem_flushed hx).trans ⟨gone, ?_⟩
    rw [← List.append_assoc, hgone]

theorem mayEnd_of_cutsAtSpace {chunks : List Bytes} {e : Emission}
    (hfence : ¬ kFenceOpen <:+: chunks.flatten) (hspace : CutsAtSpace cfg chunks.flatten)
    (he : e ∈ emissions 0 chunks.flatten { cfg := cfg }) (hforced : e.forced = false) :
    ∃ before t after, chunks.flatten = before ++ t :: after ∧ e.stop = before.length + 1 ∧
      MayEnd before t after := by
  obtain ⟨pre, c, post, htext, ⟨hstop, -, hx⟩ | ⟨-, hforced', -⟩⟩ := mem_trace.mp he
  · obtain ⟨pos, hcut, -⟩ := mem_resolved hx
    obtain ⟨hpending, hrun⟩ := cutAt_some hcut
    have hws : isWhitespace c = true := hspace pre c post htext (by rw [hcut]; simp)
    have hafter : ∃ w ∈ (c :: post).head?, isWhitespace w = true := ⟨c, rfl, hws⟩
    have htracks : Tracks pre (stateAfter cfg pre) := by
      rw [htext] at hfence hspace
      exact stateAfter_tracks (fence_mono hfence) hspace.mono
    obtain ⟨-, before, t, rfl, ht, hfree⟩ := htracks.mark pos hpending hrun
    refine ⟨before, t, c :: post, by simpa using htext, by simpa using hstop, ht, hafter, ?_⟩
    rw [excepted_iff hafter]
    rintro ⟨hdot, hnot⟩
    exact hnot (hfree hdot)
  · rw [hforced] at hforced'
    cases hforced'

theorem ends_of_mustEnd {chunks : List Bytes} {before after : Bytes} {t : UInt8}
    (hfence : ¬ kFenceOpen <:+: chunks.flatten) (hspace : CutsAtSpace cfg chunks.flatten)
    (hkeeps : KeepsEnds cfg chunks.flatten) (htext : chunks.flatten = before ++ t :: after)
    (hend : MustEnd before t after) :
    ∃ e ∈ emissions 0 chunks.flatten { cfg := cfg },
      e.forced = false ∧ e.stop = before.length + 1 := by
  obtain ⟨w, rest, rfl, hws⟩ := exists_cons_of_head hend.space
  have hnext : chunks.flatten = (before ++ [t]) ++ w :: rest := by simpa using htext
  have hfence' : ¬ kFenceOpen <:+: before ++ [t] ++ [w] := by
    rw [show chunks.flatten = (before ++ [t] ++ [w]) ++ rest by simpa using htext] at hfence
    exact fence_mono hfence
  have hbefore := fence_mono hfence'
  have htracks : Tracks before (stateAfter cfg before) := by
    rw [htext] at hspace
    exact stateAfter_tracks (fence_mono hbefore) hspace.mono
  -- the terminator is held back, and the white space cuts after it
  obtain ⟨pos, hpending, hrun⟩ :=
    held_of_mayEnd (stateAfter_sane (fence_mono hbefore)) htracks hbefore hend.toMayEnd
      (hspace before t _ htext) (hkeeps before t _ htext hend)
  rw [← stateAfter_concat] at hpending hrun
  have hsane : Sane (before ++ [t]) (stateAfter cfg (before ++ [t])) := stateAfter_sane hbefore
  have hcut := cutAt_of_held (hsane.append hfence').1 hpending hrun hws
  obtain ⟨hlt, hterm, -⟩ := hsane.held pos hpending
  obtain ⟨x, hx⟩ := resolved_ne_nil hcut hlt (terminator_excludes hterm).1
  refine ⟨⟨x, (before ++ [t]).length, false⟩, mem_trace.mpr ?_, rfl, by simp⟩
  exact ⟨before ++ [t], w, rest, hnext, Or.inl ⟨rfl, rfl, hx⟩⟩

/-- The splitter cuts by its one byte of look-ahead, so that a name with a dot in it is cut,
and it takes any short word for a list marker. Where neither happens the sentences end where
the specification says. -/
theorem pushAll_followsSpec_iff (cfg : SentenceSplitterConfig) (chunks : List Bytes)
    (hfence : ¬ kFenceOpen <:+: chunks.flatten) :
    FollowsSpec cfg chunks ↔
      CutsAtSpace cfg chunks.flatten ∧ KeepsEnds cfg chunks.flatten := by
  constructor
  · intro h
    exact ⟨cutsAtSpace_of_follows hfence h, keepsEnds_of_follows hfence h⟩
  · rintro ⟨hspace, hkeeps⟩
    refine ⟨?_, fun e he => located_of_cutsAtSpace hfence hspace he,
      fun e he => mayEnd_of_cutsAtSpace hfence hspace he,
      fun before t after htext => ends_of_mustEnd hfence hspace hkeeps htext⟩
    rw [map_emissions, pushAll_eq_push]

theorem pushAll_followsSpec_iff_greeting :
    FollowsSpec {} [ascii "It rains, e.g. in M", ascii "arch. Version 3.1", ascii "4 works. We"] :=
  (pushAll_followsSpec_iff {}
    [ascii "It rains, e.g. in M", ascii "arch. Version 3.1", ascii "4 works. We"]
    (by decide +kernel)).mpr
    ⟨forall_split (by decide +kernel), forall_split (by decide +kernel)⟩

/-- The name is cut at its dot. -/
theorem hostName_notFollowsSpec :
    ¬ kFenceOpen <:+: ([ascii "Visit example.com now."] : List Bytes).flatten ∧
      ¬ FollowsSpec {} [ascii "Visit example.com now."] := by
  refine ⟨by decide +kernel, fun h => ?_⟩
  obtain ⟨before, t, after, htext, hstop, hend⟩ :=
    h.ends ⟨ascii "Visit example.", 14, false⟩ (by decide +kernel) rfl
  have hsplit : before ++ t :: after = ascii "Visit example." ++ byte 'c' :: ascii "om now." :=
    htext.symm.trans (by decide +kernel)
  obtain ⟨-, rfl⟩ := split_next hsplit hstop
  obtain ⟨w, hw, hws⟩ := hend.space
  cases hw
  exact absurd hws (by decide)

end SentenceSplitter

end Acva.Dialogue

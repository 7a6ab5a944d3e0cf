import Acva.Core.Delimiters
import Acva.Dialogue.SentenceCover

/-! # Code fences

The mode is flipped by every backtick that has two before it, so a delimiter of even
length opens nothing and closes nothing. Otherwise the mode follows the blocks of the text,
and nothing is cut in them.
-/

namespace Acva.Dialogue

open Acva.Delimiters Acva.TrailingRun

def isTick (c : UInt8) : Bool := c = byte '\x60'

/-- The fenced blocks of a text, as positions. -/
def fencedBlocks (text : Bytes) : List (Nat × Nat) :=
  blocks text.length (delimiters isTick text)

def StrictlyInside (p : Nat) (block : Nat × Nat) : Prop := block.1 < p ∧ p < block.2

instance (p : Nat) (block : Nat × Nat) : Decidable (StrictlyInside p block) :=
  inferInstanceAs (Decidable (_ ∧ _))

namespace SentenceSplitter

variable {cfg : SentenceSplitterConfig} {pre : Bytes} {c : UInt8} {s : SentenceSplitter}

/-- The sentences of a whole stream; the last one is the final flush's. -/
def streamEmissions (cfg : SentenceSplitterConfig) (text : Bytes) : List Emission :=
  emissions 0 text { cfg := cfg } ++
    (stateAfter cfg text).flush.2.map fun sentence => ⟨sentence, text.length, true⟩

/-- What is emitted for a text in chunks, and that no sentence stops inside a block. -/
structure FencesAtomic (cfg : SentenceSplitterConfig) (chunks : List Bytes) : Prop where
  emitted : (({ cfg := cfg } : SentenceSplitter).pushAll chunks).2 ++
      (({ cfg := cfg } : SentenceSplitter).pushAll chunks).1.flush.2 =
    (streamEmissions cfg chunks.flatten).map Emission.sentence
  located : ∀ e ∈ streamEmissions cfg chunks.flatten,
    e.sentence <:+ chunks.flatten.take e.stop
  atomic : ∀ e ∈ streamEmissions cfg chunks.flatten, ∀ block ∈ fencedBlocks chunks.flatten,
    ¬StrictlyInside e.stop block

/-- The byte is white space or a comma, and the tail behind the last cut has grown too long;
there is something in it to emit. -/
def ForcesFlush (c : UInt8) (s : SentenceSplitter) : Prop :=
  ∃ t ∈ s.classifiedIn c, isTerminator c = false ∧
    t.cfg.maxSentenceChars ≤ t.charsSinceTerminator + 1 ∧ (isWhitespace c ∨ c = byte ',') ∧
    trimLeading t.buf ≠ []

/-- Behind an odd number of delimiters of even length, no terminator that is held back is
released inside a block, and no flush is forced there. -/
def QuietBehindEven (cfg : SentenceSplitterConfig) (text : Bytes) : Prop :=
  ∀ pre c post, text = pre ++ c :: post → evens (delimiters isTick pre) % 2 = 1 →
    ∀ block ∈ fencedBlocks text,
      (StrictlyInside pre.length block → (stateAfter cfg pre).cutAt c = none) ∧
      (StrictlyInside (pre.length + 1) block → ¬(stateAfter cfg pre).ForcesFlush c)

/-! ## The backticks at the end of the buffer -/

def fenceRun (s : SentenceSplitter) : Nat := (s.buf.rtakeWhile isTick).length

theorem tick_eq (h : isTick c = true) : c = byte '\x60' := of_decide_eq_true h

theorem not_isTick_of_terminator (h : isTerminator c = true) : ¬isTick c = true := by
  intro htick
  rw [tick_eq htick] at h
  exact absurd h (by decide)

/-- White space or a comma is not part of a delimiter. -/
theorem not_isTick_of_separator (h : isWhitespace c = true ∨ c = byte ',') : ¬isTick c = true := by
  intro htick
  rw [tick_eq htick] at h
  exact absurd h (by decide)

theorem mode_normal (h : s.mode ≠ .inCodeFence) : s.mode = .normal := by
  cases hmode : s.mode with
  | normal => rfl
  | inCodeFence => exact absurd hmode h

/-- Three backticks end the buffer. -/
theorem fenceOpen_iff : (s.buf ++ [c]).drop ((s.buf ++ [c]).length - 3) = kFenceOpen ↔
    isTick c = true ∧ 2 ≤ s.fenceRun := by
  unfold fenceRun
  constructor
  · intro h
    have hsplit := List.take_append_drop ((s.buf ++ [c]).length - 3) (s.buf ++ [c])
    have hthree : kFenceOpen = [byte '\x60', byte '\x60'] ++ [byte '\x60'] := rfl
    rw [h, hthree, ← List.append_assoc] at hsplit
    obtain ⟨hbuf, hc⟩ := List.append_inj' hsplit rfl
    cases hc
    have htwo : ∀ front : Bytes, front ++ [byte '\x60', byte '\x60'] =
        front ++ [byte '\x60'] ++ [byte '\x60'] := by
      intro front
      rw [List.append_assoc]
      rfl
    rw [← hbuf, htwo, List.rtakeWhile_concat_pos _ _ _ rfl, List.rtakeWhile_concat_pos _ _ _ rfl]
    refine ⟨rfl, ?_⟩
    simp only [List.length_append, List.length_singleton]
    omega
  · rintro ⟨hc, hrun⟩
    obtain rfl := tick_eq hc
    let run := s.buf.rtakeWhile isTick
    have hall : run = List.replicate run.length (byte '\x60') :=
      List.eq_replicate_iff.mpr ⟨rfl, fun x hx => tick_eq (List.mem_rtakeWhile_imp hx)⟩
    have hbuf : s.buf = s.buf.rdropWhile isTick ++ run :=
      List.rdropWhile_append_rtakeWhile.symm
    obtain ⟨n, hn⟩ : ∃ n, run.length = n + 2 := ⟨run.length - 2, (Nat.sub_add_cancel hrun).symm⟩
    have hend : s.buf ++ [byte '\x60'] =
        (s.buf.rdropWhile isTick ++ List.replicate n (byte '\x60')) ++ kFenceOpen := by
      rw [hn, List.replicate_add] at hall
      rw [hall] at hbuf
      conv_lhs => rw [hbuf]
      simp only [List.append_assoc]
      rfl
    have hlen : ∀ front : Bytes, front.length = (front ++ kFenceOpen).length - 3 := by
      intro front
      rw [List.length_append]
      exact (Nat.add_sub_cancel front.length 3).symm
    rw [hend]
    exact List.drop_left' (hlen _)

/-- The mode after the append. -/
theorem append_mode_eq (hon : s.cfg.detectCodeFences = true) :
    (s.append c).mode =
      if isTick c = true ∧ 2 ≤ s.fenceRun then
        if s.mode = .normal then .inCodeFence else .normal
      else s.mode := by
  simp only [append, hon, Bool.true_and, decide_eq_true_eq, fenceOpen_iff]

theorem append_fenceRun :
    (s.append c).fenceRun = if isTick c = true then s.fenceRun + 1 else 0 := by
  unfold fenceRun
  rw [append_buf]
  split
  next hc =>
    rw [List.rtakeWhile_concat_pos _ _ _ hc, List.length_append]
    rfl
  next hc =>
    rw [List.rtakeWhile_concat_neg _ _ _ hc]
    rfl

/-! ## What is held back around fences -/

/-- Nothing is held back in a fence or behind a backtick; a single terminator that is held
back is the last byte of the buffer. -/
structure Fenced (s : SentenceSplitter) : Prop where
  detects : s.cfg.detectCodeFences = true
  quiet : s.mode = .inCodeFence ∨ 1 ≤ s.fenceRun → s.pendingTermPos = none
  held : ∀ pos, s.pendingTermPos = some pos →
    s.buf.length = pos + max 1 s.pendingDotRun ∧
      (1 ≤ s.pendingDotRun ↔ s.buf.getD pos 0 = byte '.')

theorem Fenced.of_none (hon : s.cfg.detectCodeFences = true) (hnone : s.pendingTermPos = none) :
    s.Fenced where
  detects := hon
  quiet := fun _ => hnone
  held := by
    intro pos hpos
    rw [hnone] at hpos
    cases hpos

theorem Fenced.run_eq_zero (h : s.Fenced) {pos : Nat} (hpos : s.pendingTermPos = some pos) :
    s.fenceRun = 0 := by
  by_contra hrun
  have hnone := h.quiet (Or.inr (Nat.one_le_iff_ne_zero.mpr hrun))
  rw [hpos] at hnone
  cases hnone

/-- What one round leaves: the run and the mode go by the byte alone. -/
structure FenceStep (c : UInt8) (s s' : SentenceSplitter) : Prop where
  fenced : s'.Fenced
  run : s'.fenceRun = (s.append c).fenceRun
  mode : s'.mode = (s.append c).mode

/-- A byte that is classified, at the end of the buffer. -/
theorem FenceStep.classify {t : SentenceSplitter} (hon : t.cfg.detectCodeFences = true)
    (hmode : t.mode = .normal) (hpending : t.pendingTermPos = none)
    (hlast : t.buf.getLast? = some c) :
    (t.classify c).1.Fenced ∧ (t.classify c).1.fenceRun = t.fenceRun ∧
      (t.classify c).1.mode = t.mode := by
  obtain ⟨front, hbuf⟩ := List.getLast?_eq_some_iff.mp hlast
  cases hc : isTerminator c with
  | true =>
      cases terminatorStep hlast hc with
      | ignored hwhy hstep =>
          rw [hstep]
          exact ⟨.of_none hon rfl, rfl, rfl⟩
      | held habbreviation hmarker hstep =>
          have hrun : t.fenceRun = 0 := by
            rw [fenceRun, hbuf, List.rtakeWhile_concat_neg _ _ _ (not_isTick_of_terminator hc)]
            rfl
          rw [hstep]
          refine ⟨⟨hon, ?_, ?_⟩, rfl, rfl⟩
          · rintro (hfence | hone)
            · exact absurd (hmode.symm.trans hfence) (by decide)
            · exact absurd (Nat.le_trans hone (Nat.le_of_eq hrun)) (by decide)
          · intro pos hpos
            cases hpos
            have hget : t.buf.getD (t.buf.length - 1) 0 = c := by simp [hbuf]
            have hlen : t.buf.length = front.length + 1 := by simp [hbuf]
            show t.buf.length = t.buf.length - 1 + max 1 (if c = byte '.' then 1 else 0) ∧
              (1 ≤ (if c = byte '.' then 1 else 0) ↔ t.buf.getD (t.buf.length - 1) 0 = byte '.')
            rw [hget]
            split
            next hdot => exact ⟨by omega, iff_of_true (Nat.le_refl 1) hdot⟩
            next hdot => exact ⟨by omega, iff_of_false (by decide) hdot⟩
  | false =>
      cases textStep hc with
      | text hstep =>
          rw [hstep]
          exact ⟨.of_none hon hpending, rfl, rfl⟩
      | flushed hsep hstep =>
          rw [hstep]
          refine ⟨.of_none hon rfl, ?_, rfl⟩
          rw [fenceRun, fenceRun, hbuf,
            List.rtakeWhile_concat_neg _ _ _ (not_isTick_of_separator hsep)]
          rfl

theorem Fenced.pushByte (h : s.Fenced) (c : UInt8) : FenceStep c s (s.pushByte c).1 := by
  by_cases hfence : (s.append c).mode = .inCodeFence
  · have hstep : s.pushByte c = ((s.append c).bumpChars, []) := by
      simp only [SentenceSplitter.pushByte, if_pos hfence]
    have hnone : s.pendingTermPos = none := by
      rw [append_mode_eq h.detects] at hfence
      split at hfence
      next hflip => exact h.quiet (Or.inr (by omega))
      next => exact h.quiet (Or.inl hfence)
    rw [hstep]
    exact ⟨.of_none h.detects hnone, rfl, rfl⟩
  · have hnormal := mode_normal hfence
    cases byteStep hfence with
    | classified hpending hcut hstep =>
        rw [hstep]
        obtain ⟨hfenced, hrun, hmode⟩ := FenceStep.classify (t := s.append c) h.detects hnormal
          hpending List.getLast?_concat
        exact ⟨hfenced, hrun, hmode⟩
    | dotRun pos hpending hcut hc hdot hstep =>
        obtain ⟨hlen, hdots⟩ := h.held pos hpending
        have hlt : pos < s.buf.length := by omega
        rw [append_buf, List.getD_append _ _ _ _ hlt] at hdot
        have hone := hdots.mpr hdot
        have hrun : (s.append c).fenceRun = 0 := by
          rw [append_fenceRun, if_neg (by rw [hc]; decide)]
        rw [hstep]
        refine ⟨⟨h.detects, ?_, ?_⟩, rfl, rfl⟩
        · rintro (hin | hrun')
          · exact absurd hin hfence
          · exact absurd (Nat.le_trans hrun' (Nat.le_of_eq hrun)) (by decide)
        · intro pos' hpos
          obtain rfl : pos = pos' := Option.some.inj (hpending.symm.trans hpos)
          show (s.buf ++ [c]).length = pos + max 1 (s.pendingDotRun + 1) ∧
            (1 ≤ s.pendingDotRun + 1 ↔ (s.buf ++ [c]).getD pos 0 = byte '.')
          rw [List.getD_append _ _ _ _ hlt, List.length_append, List.length_singleton]
          exact ⟨by omega, iff_of_true (by omega) hdot⟩
    | kept pos hpending hcut hdot hwhy hstep =>
        rw [hstep]
        exact ⟨.of_none h.detects rfl, rfl, rfl⟩
    | cut pos hpending hcut hdot hrun hstep =>
        -- the cut leaves the byte alone, and there was no backtick before it
        obtain ⟨hlen, -⟩ := h.held pos hpending
        have hpos : pos + 1 = s.buf.length := by omega
        have hbuf : ((s.append c).resolvePending pos).1.buf = [c] := by
          show (s.buf ++ [c]).drop (pos + 1) = [c]
          rw [hpos, List.drop_left]
        have hsame : ((s.append c).resolvePending pos).1.fenceRun = (s.append c).fenceRun := by
          rw [append_fenceRun, h.run_eq_zero hpending, fenceRun, hbuf]
          by_cases htick : isTick c = true
          · rw [if_pos htick, List.rtakeWhile, List.reverse_singleton,
              List.takeWhile_cons_of_pos htick]
            rfl
          · rw [if_neg htick, List.rtakeWhile, List.reverse_singleton,
              List.takeWhile_cons_of_neg htick]
            rfl
        rw [hstep]
        obtain ⟨hfenced, hrun', hmode⟩ :=
          FenceStep.classify (t := ((s.append c).resolvePending pos).1) h.detects hnormal rfl
            (by rw [hbuf]; rfl)
        exact ⟨hfenced, hrun'.trans hsame, hmode⟩

/-! ## The mode along a text -/

/-- The mode as a number, to count its flips. -/
def fenceBit (s : SentenceSplitter) : Nat := if s.mode = .inCodeFence then 1 else 0

theorem fenceBit_append (hon : s.cfg.detectCodeFences = true) :
    (s.append c).fenceBit % 2 =
      (s.fenceBit + if isTick c = true ∧ 2 ≤ s.fenceRun then 1 else 0) % 2 := by
  unfold fenceBit
  rw [append_mode_eq hon]
  split
  next hflip => cases s.mode <;> rfl
  next => rfl

theorem Fenced.push (h : s.Fenced) (text : Bytes) :
    (s.push text).1.Fenced ∧
      (s.push text).1.fenceBit % 2 = (s.fenceBit + flipsFrom isTick s.fenceRun text) % 2 := by
  induction text generalizing s with
  | nil => exact ⟨h, rfl⟩
  | cons c cs ih =>
      have hstep := h.pushByte c
      obtain ⟨hfenced, hbit⟩ := ih hstep.fenced
      refine ⟨hfenced, ?_⟩
      have hone : (s.pushByte c).1.fenceBit = (s.append c).fenceBit := by
        rw [fenceBit, hstep.mode]
        rfl
      have hflip := fenceBit_append (c := c) h.detects
      show ((s.pushByte c).1.push cs).1.fenceBit % 2 = _
      rw [hbit, hone, hstep.run, append_fenceRun, flipsFrom]
      by_cases htick : isTick c = true
      · simp only [htick, true_and, if_true] at hflip ⊢
        omega
      · rw [if_neg (fun hboth => htick hboth.1)] at hflip
        rw [if_neg htick, if_neg htick]
        omega

variable (hon : cfg.detectCodeFences = true)

include hon

theorem stateAfter_fenced (pre : Bytes) : (stateAfter cfg pre).Fenced :=
  (Fenced.push (.of_none (s := { cfg := cfg }) hon rfl) pre).1

/-- In normal mode behind an odd number of delimiters, an odd number of them were even. -/
theorem evens_odd (hmode : (stateAfter cfg pre).mode = .normal)
    (hodd : (delimiters isTick pre).length % 2 = 1) :
    evens (delimiters isTick pre) % 2 = 1 := by
  have hbit : (stateAfter cfg pre).fenceBit % 2 = (0 + flipsFrom isTick 0 pre) % 2 :=
    (Fenced.push (.of_none (s := { cfg := cfg }) hon rfl) pre).2
  have hzero : (stateAfter cfg pre).fenceBit = 0 := by
    rw [fenceBit, hmode]
    rfl
  have hparity := flips_add_evens (p := isTick) pre
  rw [hzero] at hbit
  omega

/-- Where the buffer ends with no backtick the text does not either. -/
theorem sealed_of_run (hrun : (stateAfter cfg pre).fenceRun = 0) (post : Bytes) :
    Sealed isTick pre post := by
  refine Or.inl fun x hx => ?_
  obtain ⟨front, rfl⟩ := List.getLast?_eq_some_iff.mp hx
  have hstep := (stateAfter_fenced hon front).pushByte x
  rw [stateAfter_concat, hstep.run, append_fenceRun] at hrun
  by_contra htick
  rw [if_pos (by simpa using htick)] at hrun
  omega

omit hon

/-! ## Sentences and their places -/

theorem flushed_ne_nil_iff : s.flushed c ≠ [] ↔ s.ForcesFlush c := by
  unfold flushed ForcesFlush
  cases s.classifiedIn c with
  | none =>
      refine iff_of_false (fun h => h rfl) ?_
      rintro ⟨t, ht, -⟩
      cases ht
  | some t =>
      have hone : ∀ P : SentenceSplitter → Prop, (∃ u ∈ some t, P u) ↔ P t := by
        intro P
        simp
      rw [hone]
      cases hc : isTerminator c with
      | true =>
          have hnothing : (t.classify c).2 = [] := by
            unfold classify
            rw [if_pos hc]
            repeat' split
            all_goals rfl
          exact iff_of_false (fun h => h hnothing) (fun h => Bool.noConfusion h.1)
      | false =>
          have hc' : ¬isTerminator c = true := by rw [hc]; exact Bool.false_ne_true
          simp only [classify, if_neg hc', true_and]
          by_cases hflush : t.cfg.maxSentenceChars ≤ t.charsSinceTerminator + 1 ∧
              (isWhitespace c = true ∨ c = byte ',')
          · have hemit : (t.bumpChars.flushBuffer).2 = emit t.buf := rfl
            have hcond : t.bumpChars.cfg.maxSentenceChars ≤ t.bumpChars.charsSinceTerminator ∧
                (isWhitespace c = true ∨ c = byte ',') := hflush
            rw [if_pos hcond, hemit, ne_eq, emit_eq_nil_iff]
            exact ⟨fun h => ⟨hflush.1, hflush.2, h⟩, fun h => h.2.2⟩
          · have hcond : ¬(t.bumpChars.cfg.maxSentenceChars ≤ t.bumpChars.charsSinceTerminator ∧
                (isWhitespace c = true ∨ c = byte ',')) := hflush
            rw [if_neg hcond]
            exact iff_of_false (fun h => h rfl) (fun h => hflush ⟨h.1, h.2.1⟩)

/-- A sentence of the stream stops where a byte cut, where a byte forced a flush, or at the
end. -/
theorem mem_streamEmissions {text : Bytes} {e : Emission} :
    e ∈ streamEmissions cfg text ↔
      (∃ pre c post, text = pre ++ c :: post ∧
        ((e.stop = pre.length ∧ e.forced = false ∧ e.sentence ∈ (stateAfter cfg pre).resolved c) ∨
          (e.stop = pre.length + 1 ∧ e.forced = true ∧
            e.sentence ∈ (stateAfter cfg pre).flushed c))) ∨
      e.stop = text.length ∧ e.forced = true ∧ e.sentence ∈ (stateAfter cfg text).flush.2 := by
  have hat : ∀ (k : Nat) (c : UInt8) (s : SentenceSplitter), e ∈ s.emissionsAt k c ↔
      (e.stop = k ∧ e.forced = false ∧ e.sentence ∈ s.resolved c) ∨
        (e.stop = k + 1 ∧ e.forced = true ∧ e.sentence ∈ s.flushed c) := by
    intro k c s
    rw [emissionsAt, List.mem_append, List.mem_map, List.mem_map]
    constructor
    · rintro (⟨x, hx, rfl⟩ | ⟨x, hx, rfl⟩)
      · exact Or.inl ⟨rfl, rfl, hx⟩
      · exact Or.inr ⟨rfl, rfl, hx⟩
    · obtain ⟨sentence, stop, forced⟩ := e
      rintro (⟨rfl, rfl, hx⟩ | ⟨rfl, rfl, hx⟩)
      · exact Or.inl ⟨sentence, hx, rfl⟩
      · exact Or.inr ⟨sentence, hx, rfl⟩
  have hlast : e ∈ ((stateAfter cfg text).flush.2.map fun x =>
        (⟨x, text.length, true⟩ : Emission)) ↔
      e.stop = text.length ∧ e.forced = true ∧ e.sentence ∈ (stateAfter cfg text).flush.2 := by
    rw [List.mem_map]
    constructor
    · rintro ⟨x, hx, rfl⟩
      exact ⟨rfl, rfl, hx⟩
    · obtain ⟨sentence, stop, forced⟩ := e
      rintro ⟨rfl, rfl, hx⟩
      exact ⟨sentence, hx, rfl⟩
  rw [streamEmissions, List.mem_append, hlast, mem_emissions]
  simp only [hat, Nat.zero_add]
  rfl

theorem buf_suffix (cfg : SentenceSplitterConfig) (pre : Bytes) :
    (stateAfter cfg pre).buf <:+ pre := by
  obtain ⟨gaps, gap, -, -, -, -, htext⟩ := (keeps_push cfg pre).covered
  exact ⟨weave gaps _ ++ gap, htext.symm⟩

include hon

theorem located (text : Bytes) {e : Emission} (he : e ∈ streamEmissions cfg text) :
    e.sentence <:+ text.take e.stop := by
  rcases mem_streamEmissions.mp he with ⟨pre, c, post, rfl, hcut | hflush⟩ | hlast
  · obtain ⟨hstop, -, hx⟩ := hcut
    obtain ⟨pos, hpos, hsuffix⟩ := mem_resolved hx
    obtain ⟨hpending, hrun⟩ := cutAt_some hpos
    have hlen := ((stateAfter_fenced hon pre).held pos hpending).1
    have hwhole : ((stateAfter cfg pre).buf ++ [c]).take (pos + 1) = (stateAfter cfg pre).buf :=
      List.take_left' (by omega)
    rw [hwhole] at hsuffix
    rw [hstop, List.take_left]
    exact hsuffix.trans (buf_suffix cfg pre)
  · obtain ⟨hstop, -, hx⟩ := hflush
    have hsplit : pre ++ c :: post = (pre ++ [c]) ++ post := by
      rw [List.append_assoc, List.singleton_append]
    have hlen : pre.length + 1 = (pre ++ [c]).length := by
      rw [List.length_append, List.length_singleton]
    rw [hstop, hsplit, hlen, List.take_left]
    obtain ⟨gone, hgone⟩ := buf_suffix cfg pre
    refine (mem_flushed hx).trans ⟨gone, ?_⟩
    rw [← List.append_assoc, hgone]
  · obtain ⟨hstop, -, hx⟩ := hlast
    rw [hstop, List.take_length]
    refine List.IsSuffix.trans ?_ (buf_suffix cfg text)
    unfold flush at hx
    dsimp only at hx
    split at hx
    · cases hx
    · exact emit_suffix hx

/-- In a block nothing is cut but behind an odd number of even delimiters. -/
theorem atomic_of_quiet {text : Bytes} (hquiet : QuietBehindEven cfg text) {e : Emission}
    (he : e ∈ streamEmissions cfg text) {block : Nat × Nat} (hblock : block ∈ fencedBlocks text) :
    ¬StrictlyInside e.stop block := by
  rintro ⟨hstart, hstop⟩
  rcases mem_streamEmissions.mp he with ⟨pre, c, post, rfl, ⟨hat, -, hx⟩ | ⟨hat, -, hx⟩⟩ | hlast
  · rw [hat] at hstart hstop
    obtain ⟨pos, hcut, -⟩ := mem_resolved hx
    have hfenced := stateAfter_fenced hon pre
    have hpending := (cutAt_some hcut).1
    have hrun := hfenced.run_eq_zero hpending
    have hodd := odd_of_inside (sealed_of_run hon hrun (c :: post)) hblock hstart hstop
    have hmode : (stateAfter cfg pre).mode = .normal := by
      refine mode_normal fun hin => ?_
      have hnone := hfenced.quiet (Or.inl hin)
      rw [hpending] at hnone
      cases hnone
    have hnone := (hquiet pre c post rfl (evens_odd hon hmode hodd) block hblock).1 ⟨hstart, hstop⟩
    rw [hcut] at hnone
    cases hnone
  · rw [hat] at hstart hstop
    have hforces := flushed_ne_nil_iff.mp (List.ne_nil_of_mem hx)
    obtain ⟨t, ht, -, -, hsep, -⟩ := id hforces
    have htick : isTick c = false := Bool.eq_false_iff.mpr (not_isTick_of_separator hsep)
    have hsplit : pre ++ c :: post = (pre ++ [c]) ++ post := by
      rw [List.append_assoc, List.singleton_append]
    have hlen : (pre ++ [c]).length = pre.length + 1 := by
      rw [List.length_append, List.length_singleton]
    have hodd : (delimiters isTick pre).length % 2 = 1 := by
      have hinside := hblock
      rw [fencedBlocks, hsplit] at hinside
      rw [← delimiters_concat htick]
      exact odd_of_inside (Sealed.of_last htick) hinside (by omega) (by omega)
    have hmode : (stateAfter cfg pre).mode = .normal := by
      have hnormal : ((stateAfter cfg pre).append c).mode ≠ .inCodeFence := by
        intro hfence
        rw [classifiedIn, if_pos hfence] at ht
        cases ht
      rw [append_mode_eq (stateAfter_fenced hon pre).detects, if_neg (by simp [htick])] at hnormal
      exact mode_normal hnormal
    exact (hquiet pre c post rfl (evens_odd hon hmode hodd) block hblock).2 ⟨hstart, hstop⟩ hforces
  · have hbound := block_stop_le hblock
    omega

/-- A delimiter of even length leaves the mode as it was. Where nothing is cut behind such
delimiters the blocks are atomic, and only there. -/
theorem fencesAtomic_iff (chunks : List Bytes) :
    FencesAtomic cfg chunks ↔ QuietBehindEven cfg chunks.flatten := by
  constructor
  · intro h pre c post htext _ block hblock
    refine ⟨fun hinside => ?_, fun hinside hforces => ?_⟩
    · by_contra hne
      obtain ⟨pos, hcut⟩ := Option.ne_none_iff_exists'.mp hne
      obtain ⟨hlt, hterm⟩ := (keeps_push cfg pre).held pos (cutAt_some hcut).1
      obtain ⟨x, hx⟩ := resolved_ne_nil hcut hlt (by
        cases hws : isWhitespace ((stateAfter cfg pre).buf.getD pos 0) with
        | false => rfl
        | true =>
            generalize (stateAfter cfg pre).buf.getD pos 0 = b at hws hterm
            simp only [isWhitespace, Bool.or_eq_true, decide_eq_true_eq] at hws
            rcases hws with ((rfl | rfl) | rfl) | rfl <;> exact absurd hterm (by decide))
      exact h.atomic ⟨x, pre.length, false⟩
        (mem_streamEmissions.mpr (Or.inl ⟨pre, c, post, htext, Or.inl ⟨rfl, rfl, hx⟩⟩))
        block hblock hinside
    · obtain ⟨x, hx⟩ := List.exists_mem_of_ne_nil _ (flushed_ne_nil_iff.mpr hforces)
      exact h.atomic ⟨x, pre.length + 1, true⟩
        (mem_streamEmissions.mpr (Or.inl ⟨pre, c, post, htext, Or.inr ⟨rfl, rfl, hx⟩⟩))
        block hblock hinside
  · intro hquiet
    refine ⟨?_, fun e he => located hon _ he, fun e he block hblock =>
      atomic_of_quiet hon hquiet he hblock⟩
    rw [pushAll_eq_push, streamEmissions, List.map_append, map_emissions, List.map_map]
    exact congrArg _ (List.map_id _).symm

omit hon

/-- Three backticks open a block and close it, and the full stops in it are quiet. -/
theorem fencesAtomic_three :
    FencesAtomic {} [ascii "See ``", ascii "` a. b! ```. Done."] := by
  refine (fencesAtomic_iff rfl _).mpr fun pre c post htext hodd => ?_
  exact absurd hodd (forall_split (P := fun pre _ _ => ¬evens (delimiters isTick pre) % 2 = 1)
    (by decide +kernel) pre c post htext)

/-- Four backticks open a block in the text, but not in the splitter. -/
theorem fences_not_atomic :
    ¬FencesAtomic {} [ascii "```` x! y ````"] := by
  intro h
  exact h.atomic ⟨ascii "```` x!", 7, false⟩ (by decide +kernel) (0, 14)
    (by decide +kernel) (by decide)

end SentenceSplitter

end Acva.Dialogue

import Acva.Dialogue.SentenceTrace

/-! # The splitter loses nothing

What was pushed is the sentences with white space between them, and the buffer. A
terminator that is held back is always one byte of the buffer.
-/

namespace Acva.Dialogue

/-- Only white space. -/
def Blank (w : Bytes) : Prop := ∀ c ∈ w, isWhitespace c = true

/-- A sentence has a first byte, which is not white space. -/
def Begins (x : Bytes) : Prop := ∃ c ∈ x.head?, isWhitespace c = false

/-- `gap, sentence, gap, sentence, ...` -/
def weave (gaps sentences : List Bytes) : Bytes := (List.zipWith (· ++ ·) gaps sentences).flatten

/-- The text is sentences with blank gaps before them, one gap more, and what is left. -/
def Covered (text : Bytes) (sentences : List Bytes) (rest : Bytes) : Prop :=
  ∃ gaps gap, gaps.length = sentences.length ∧ (∀ w ∈ gaps, Blank w) ∧ Blank gap ∧
    (∀ x ∈ sentences, Begins x) ∧ text = weave gaps sentences ++ gap ++ rest

theorem Blank.append {v w : Bytes} (hv : Blank v) (hw : Blank w) : Blank (v ++ w) := by
  intro c hc
  rcases List.mem_append.mp hc with hc | hc
  · exact hv c hc
  · exact hw c hc

theorem weave_append {gaps sentences : List Bytes} (h : gaps.length = sentences.length)
    (gap x : Bytes) :
    weave (gaps ++ [gap]) (sentences ++ [x]) = weave gaps sentences ++ gap ++ x := by
  rw [weave, List.zipWith_append h, List.flatten_append, List.append_assoc]
  simp [weave]

theorem trimLeading_begins {s : Bytes} (h : trimLeading s ≠ []) : Begins (trimLeading s) := by
  obtain ⟨c, cs, hcons⟩ := List.exists_cons_of_ne_nil h
  refine ⟨c, by rw [hcons]; rfl, ?_⟩
  have hhead : ¬isWhitespace ((trimLeading s).head h) = true := by
    have hnot := List.head_dropWhile_not isWhitespace h
    rwa [Bool.not_eq_true]
  simp only [hcons, List.head_cons] at hhead
  exact Bool.not_eq_true _ ▸ hhead

namespace Covered

variable {text rest : Bytes} {sentences : List Bytes}

theorem nil : Covered [] [] [] := by
  refine ⟨[], [], rfl, ?_, ?_, ?_, rfl⟩
  · intro w hw
    cases hw
  · intro c hc
    cases hc
  · intro x hx
    cases hx

/-- A byte more. -/
theorem push (h : Covered text sentences rest) (c : UInt8) :
    Covered (text ++ [c]) sentences (rest ++ [c]) := by
  obtain ⟨gaps, gap, hlen, hgaps, hgap, hbegin, rfl⟩ := h
  exact ⟨gaps, gap, hlen, hgaps, hgap, hbegin, List.append_assoc _ _ _⟩

/-- Emitting the head of what is left moves it to the sentences, or to the gap. -/
theorem emit {head tail : Bytes} (h : Covered text sentences (head ++ tail)) :
    Covered text (sentences ++ emit head) tail := by
  obtain ⟨gaps, gap, hlen, hgaps, hgap, hbegin, htext⟩ := h
  have hblank : Blank (head.takeWhile isWhitespace) := fun c hc => List.mem_takeWhile_imp hc
  have hhead : head.takeWhile isWhitespace ++ trimLeading head = head :=
    List.takeWhile_append_dropWhile
  unfold Dialogue.emit
  split
  next hnil =>
    rw [hnil, List.append_nil] at hhead
    rw [hhead] at hblank
    refine ⟨gaps, gap ++ head, ?_, hgaps, hgap.append hblank, ?_, ?_⟩
    · rw [List.append_nil, hlen]
    · rwa [List.append_nil]
    · rw [htext, List.append_nil]
      simp only [List.append_assoc]
  next hne =>
    refine ⟨gaps ++ [gap ++ head.takeWhile isWhitespace], [], ?_, ?_, ?_, ?_, ?_⟩
    · rw [List.length_append, List.length_append, hlen]
      rfl
    · intro w hw
      rcases List.mem_append.mp hw with hw | hw
      · exact hgaps w hw
      · rw [List.mem_singleton.mp hw]
        exact hgap.append hblank
    · intro c hc
      cases hc
    · intro x hx
      rcases List.mem_append.mp hx with hx | hx
      · exact hbegin x hx
      · rw [List.mem_singleton.mp hx]
        exact trimLeading_begins hne
    · rw [htext, weave_append hlen]
      conv_lhs => rw [← hhead]
      simp only [List.append_assoc, List.append_nil]

end Covered

namespace SentenceSplitter

variable {c : UInt8} {s : SentenceSplitter} {text : Bytes} {sentences : List Bytes}

theorem covered_flushBuffer (h : Covered text sentences s.buf) :
    Covered text (sentences ++ s.flushBuffer.2) s.flushBuffer.1.buf := by
  have hall : Covered text sentences (s.buf ++ []) := by rwa [List.append_nil]
  exact hall.emit

theorem covered_resolvePending (h : Covered text sentences s.buf) (pos : Nat) :
    Covered text (sentences ++ (s.resolvePending pos).2) (s.resolvePending pos).1.buf := by
  have hsplit : Covered text sentences (s.buf.take (pos + 1) ++ s.buf.drop (pos + 1)) := by
    rwa [List.take_append_drop]
  exact hsplit.emit

/-- The held-back terminator is a byte of the buffer. -/
def HoldsTerminator (s : SentenceSplitter) : Prop :=
  ∀ pos, s.pendingTermPos = some pos →
    pos < s.buf.length ∧ isTerminator (s.buf.getD pos 0) = true

theorem HoldsTerminator.of_none (h : s.pendingTermPos = none) : s.HoldsTerminator := by
  intro pos hpos
  rw [h] at hpos
  cases hpos

theorem HoldsTerminator.append (h : s.HoldsTerminator) (c : UInt8) :
    (s.append c).HoldsTerminator := by
  intro pos hpos
  obtain ⟨hlt, hterm⟩ := h pos hpos
  rw [append_buf, List.length_append, List.getD_append _ _ _ _ hlt]
  exact ⟨Nat.lt_add_right _ hlt, hterm⟩

/-- Everything so far is in the sentences or in the buffer. -/
structure Keeps (text : Bytes) (sentences : List Bytes) (s : SentenceSplitter) : Prop where
  covered : Covered text sentences s.buf
  held : s.HoldsTerminator

/-- A byte that nothing is held back before, at the end of the buffer. -/
theorem Keeps.classify (hcovered : Covered text sentences s.buf)
    (hpending : s.pendingTermPos = none) (hlast : s.buf.getLast? = some c) :
    Keeps text (sentences ++ (s.classify c).2) (s.classify c).1 := by
  have hsame : Covered text (sentences ++ []) s.buf := by rwa [List.append_nil]
  cases hc : isTerminator c with
  | true =>
      cases terminatorStep hlast hc with
      | ignored hwhy hstep =>
          rw [hstep]
          exact ⟨hsame, .of_none rfl⟩
      | held habbreviation hmarker hstep =>
          rw [hstep]
          refine ⟨hsame, fun pos hpos => ?_⟩
          cases hpos
          obtain ⟨front, hbuf⟩ := List.getLast?_eq_some_iff.mp hlast
          have hget : s.buf.getD (s.buf.length - 1) 0 = c := by simp [hbuf]
          have hlt : s.buf.length - 1 < s.buf.length := by simp [hbuf]
          exact ⟨hlt, hget ▸ hc⟩
  | false =>
      cases textStep hc with
      | text hstep =>
          rw [hstep]
          exact ⟨hsame, .of_none hpending⟩
      | flushed hsep hstep =>
          rw [hstep]
          exact ⟨covered_flushBuffer (s := s.bumpChars) hcovered, .of_none rfl⟩

/-- One round of the loop. -/
theorem Keeps.pushByte (h : Keeps text sentences s) (c : UInt8) :
    Keeps (text ++ [c]) (sentences ++ (s.pushByte c).2) (s.pushByte c).1 := by
  have hcovered : Covered (text ++ [c]) sentences (s.append c).buf := h.covered.push c
  have hsame : Covered (text ++ [c]) (sentences ++ []) (s.append c).buf := by
    rwa [List.append_nil]
  by_cases hfence : (s.append c).mode = .inCodeFence
  · have hstep : s.pushByte c = ((s.append c).bumpChars, []) := by
      simp only [SentenceSplitter.pushByte, if_pos hfence]
    rw [hstep]
    exact ⟨hsame, h.held.append c⟩
  · cases byteStep hfence with
    | classified hpending hcut hstep =>
        rw [hstep]
        exact .classify hcovered hpending List.getLast?_concat
    | dotRun pos hpending hcut hc hdot hstep =>
        rw [hstep]
        exact ⟨hsame, h.held.append c⟩
    | kept pos hpending hcut hdot hwhy hstep =>
        rw [hstep]
        exact ⟨hsame, .of_none rfl⟩
    | cut pos hpending hcut hdot hrun hstep =>
        -- the byte is the first or a later one of what the cut leaves
        obtain ⟨hlt, -⟩ := h.held pos hpending
        have hlast : ((s.append c).resolvePending pos).1.buf.getLast? = some c := by
          show ((s.buf ++ [c]).drop (pos + 1)).getLast? = some c
          rw [List.drop_append_of_le_length hlt, List.getLast?_concat]
        rw [hstep, ← List.append_assoc]
        exact .classify (covered_resolvePending hcovered pos) rfl hlast

/-! ## Runs -/

theorem Keeps.push (h : Keeps text sentences s) (more : Bytes) :
    Keeps (text ++ more) (sentences ++ (s.push more).2) (s.push more).1 := by
  induction more generalizing text sentences s with
  | nil =>
      rw [List.append_nil]
      show Keeps text (sentences ++ []) s
      rwa [List.append_nil]
  | cons c cs ih =>
      have hrest := ih (h.pushByte c)
      rw [List.append_assoc, List.append_assoc] at hrest
      exact hrest

theorem keeps_push (cfg : SentenceSplitterConfig) (text : Bytes) :
    Keeps text (({ cfg := cfg } : SentenceSplitter).push text).2 (stateAfter cfg text) := by
  have hfresh : Keeps [] [] ({ cfg := cfg } : SentenceSplitter) := ⟨Covered.nil, .of_none rfl⟩
  exact hfresh.push text

theorem covered_flush (h : Covered text sentences s.buf) :
    Covered text (sentences ++ s.flush.2) [] := by
  unfold flush
  dsimp only
  split
  next hnil =>
    rw [List.append_nil]
    have hbuf : s.buf = [] := hnil
    rwa [hbuf] at h
  next => exact covered_flushBuffer (s := s.clearPending) h

/-- Whatever is pushed in whatever pieces comes out again, but for white space between the
sentences; and at every byte a terminator that is held back is in the buffer. -/
theorem splitter_loses_nothing (cfg : SentenceSplitterConfig) (chunks : List Bytes) :
    let (s, pushed) := ({ cfg := cfg } : SentenceSplitter).pushAll chunks
    let sentences := pushed ++ s.flush.2
    (∃ gaps last, gaps.length = sentences.length ∧ (∀ w ∈ gaps, Blank w) ∧ Blank last ∧
      chunks.flatten = weave gaps sentences ++ last) ∧
    (∀ x ∈ sentences, Begins x) ∧
    ∀ pre post, chunks.flatten = pre ++ post → (stateAfter cfg pre).HoldsTerminator := by
  rw [pushAll_eq_push]
  obtain ⟨gaps, last, hlen, hgaps, hlast, hbegin, htext⟩ :=
    covered_flush (keeps_push cfg chunks.flatten).covered
  rw [List.append_nil] at htext
  exact ⟨⟨gaps, last, hlen, hgaps, hlast, htext⟩, hbegin, fun pre _ _ => (keeps_push cfg pre).held⟩

end SentenceSplitter

end Acva.Dialogue

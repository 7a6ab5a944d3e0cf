import Mathlib.Data.List.GetD
import Mathlib.Data.List.TakeWhile
import Acva.Dialogue.SentenceSplitter

/-! # Where in the text a sentence stops

The splitter knows positions in its buffer only. Here each sentence is listed with its
position in the whole text, and with whether the forced flush emitted it.
-/

namespace Acva.Dialogue

/-- `stop` is the number of bytes of the text up to the end of the sentence. -/
structure Emission where
  sentence : Bytes
  stop : Nat
  forced : Bool
deriving DecidableEq, Repr

namespace SentenceSplitter

variable {c : UInt8} {s : SentenceSplitter} {pos : Nat}

/-! ## Chunks -/

/-- One call of `push` for each chunk. -/
def pushAll : List Bytes → SentenceSplitter → SentenceSplitter × List Bytes
  | [], s => (s, [])
  | chunk :: chunks, s =>
      let (s, out) := s.push chunk
      let (s, out') := s.pushAll chunks
      (s, out ++ out')

theorem pushAll_eq_push (chunks : List Bytes) (s : SentenceSplitter) :
    s.pushAll chunks = s.push chunks.flatten := by
  induction chunks generalizing s with
  | nil => rfl
  | cons chunk chunks ih => simp [pushAll, push_append, ih]

/-- The state in which the byte after `pre` arrives. -/
def stateAfter (cfg : SentenceSplitterConfig) (pre : Bytes) : SentenceSplitter :=
  (({ cfg := cfg } : SentenceSplitter).push pre).1

theorem stateAfter_concat (cfg : SentenceSplitterConfig) (pre : Bytes) (c : UInt8) :
    stateAfter cfg (pre ++ [c]) = ((stateAfter cfg pre).pushByte c).1 := by
  simp [stateAfter, push_append, push]

/-! ## What a byte can do -/

@[simp] theorem append_buf : (s.append c).buf = s.buf ++ [c] := rfl

@[simp] theorem append_pendingTermPos : (s.append c).pendingTermPos = s.pendingTermPos := rfl

/-- The terminator that `c` makes `resolvePending` split after. -/
def cutAt (c : UInt8) (s : SentenceSplitter) : Option Nat :=
  if (s.append c).mode = .inCodeFence then none
  else
    match s.pendingTermPos with
    | none => none
    | some pos =>
        if c = byte '.' ∧ (s.append c).buf.getD pos 0 = byte '.' then none
        else if isDigit c then none
        else if 2 ≤ s.pendingDotRun then none
        else some pos

/-- The state in which `c` is classified, where it is. -/
def classifiedIn (c : UInt8) (s : SentenceSplitter) : Option SentenceSplitter :=
  if (s.append c).mode = .inCodeFence then none
  else
    match s.pendingTermPos with
    | none => some (s.append c)
    | some _ => (s.cutAt c).map fun pos => ((s.append c).resolvePending pos).1

/-- What `resolvePending` emits when `c` arrives. -/
def resolved (c : UInt8) (s : SentenceSplitter) : List Bytes :=
  match s.cutAt c with
  | none => []
  | some pos => ((s.append c).resolvePending pos).2

/-- What the forced flush emits when `c` arrives. -/
def flushed (c : UInt8) (s : SentenceSplitter) : List Bytes :=
  match s.classifiedIn c with
  | none => []
  | some s => (s.classify c).2

/-- The rounds of the loop outside a code fence. -/
inductive ByteStep (c : UInt8) (s : SentenceSplitter) : Prop
  | classified (hpending : s.pendingTermPos = none) (hcut : s.cutAt c = none)
      (hstep : s.pushByte c = (s.append c).classify c)
  | dotRun (pos : Nat) (hpending : s.pendingTermPos = some pos) (hcut : s.cutAt c = none)
      (hc : c = byte '.') (hdot : (s.append c).buf.getD pos 0 = byte '.')
      (hstep : s.pushByte c =
        ({ s.append c with pendingDotRun := s.pendingDotRun + 1 }, []))
  | kept (pos : Nat) (hpending : s.pendingTermPos = some pos) (hcut : s.cutAt c = none)
      (hdot : ¬ (c = byte '.' ∧ (s.append c).buf.getD pos 0 = byte '.'))
      (hwhy : isDigit c = true ∨ 2 ≤ s.pendingDotRun)
      (hstep : s.pushByte c = ((s.append c).clearPending.bumpChars, []))
  | cut (pos : Nat) (hpending : s.pendingTermPos = some pos) (hcut : s.cutAt c = some pos)
      (hdot : ¬ (c = byte '.' ∧ (s.append c).buf.getD pos 0 = byte '.'))
      (hrun : s.pendingDotRun < 2)
      (hstep : s.pushByte c =
        ((((s.append c).resolvePending pos).1.classify c).1,
          ((s.append c).resolvePending pos).2 ++
            (((s.append c).resolvePending pos).1.classify c).2))

theorem byteStep (hfence : (s.append c).mode ≠ .inCodeFence) : s.ByteStep c := by
  cases hpending : s.pendingTermPos with
  | none =>
      refine .classified hpending ?_ ?_
      · simp only [cutAt, if_neg hfence, hpending]
      · simp only [pushByte, if_neg hfence, append_pendingTermPos, hpending]
  | some pos =>
      by_cases hdot : c = byte '.' ∧ (s.append c).buf.getD pos 0 = byte '.'
      · refine .dotRun pos hpending ?_ hdot.1 hdot.2 ?_
        · simp only [cutAt, if_neg hfence, hpending, if_pos hdot]
        · simp only [pushByte, if_neg hfence, append_pendingTermPos, hpending, if_pos hdot]
          rfl
      · by_cases hdigit : isDigit c = true
        · refine .kept pos hpending ?_ hdot (.inl hdigit) ?_
          · simp only [cutAt, if_neg hfence, hpending, if_neg hdot, if_pos hdigit]
          · simp only [pushByte, if_neg hfence, append_pendingTermPos, hpending, if_neg hdot,
              if_pos hdigit]
        · by_cases hrun : 2 ≤ (s.append c).pendingDotRun
          · refine .kept pos hpending ?_ hdot (.inr hrun) ?_
            · rw [cutAt, if_neg hfence, hpending]
              exact (if_neg hdot).trans ((if_neg hdigit).trans (if_pos hrun))
            · simp only [pushByte, if_neg hfence, append_pendingTermPos, hpending, if_neg hdot,
                if_neg hdigit, if_pos hrun]
          · refine .cut pos hpending ?_ hdot (Nat.lt_of_not_le hrun) ?_
            · rw [cutAt, if_neg hfence, hpending]
              exact (if_neg hdot).trans ((if_neg hdigit).trans (if_neg hrun))
            · simp only [pushByte, if_neg hfence, append_pendingTermPos, hpending, if_neg hdot,
                if_neg hdigit, if_neg hrun]

theorem cutAt_some (h : s.cutAt c = some pos) :
    s.pendingTermPos = some pos ∧ s.pendingDotRun < 2 := by
  have hfence : (s.append c).mode ≠ .inCodeFence := by
    intro hmode
    rw [cutAt, if_pos hmode] at h
    cases h
  cases byteStep hfence with
  | classified hpending hcut hstep =>
      rw [hcut] at h
      cases h
  | dotRun pos hpending hcut hc hdot hstep =>
      rw [hcut] at h
      cases h
  | kept pos hpending hcut hdot hwhy hstep =>
      rw [hcut] at h
      cases h
  | cut pos hpending hcut hdot hrun hstep =>
      rw [hcut] at h
      cases h
      exact ⟨hpending, hrun⟩

/-- What a terminator does once none is held back. -/
inductive TerminatorStep (c : UInt8) (s : SentenceSplitter) : Prop
  | ignored (hwhy : s.lastWordIsAbbreviation = true ∨ s.bufferEndsWithListMarker = true ∨
        s.bufferEndsWithEllipsis = true)
      (hstep : s.classify c = (s.clearPending, []))
  | held (habbreviation : s.lastWordIsAbbreviation = false)
      (hmarker : s.bufferEndsWithListMarker = false)
      (hstep : s.classify c =
        ({ s with
          pendingTermPos := some (s.buf.length - 1)
          pendingDotRun := if c = byte '.' then 1 else 0 }, []))

theorem terminatorStep (hlast : s.buf.getLast? = some c) (hc : isTerminator c = true) :
    s.TerminatorStep c := by
  cases habbreviation : s.lastWordIsAbbreviation with
  | true => exact .ignored (.inl habbreviation) (by simp [classify, hc, habbreviation])
  | false =>
      cases hmarker : s.bufferEndsWithListMarker with
      | true => exact .ignored (.inr (.inl hmarker)) (by simp [classify, hc, hmarker])
      | false =>
          cases hdecimal : s.bufferEndsWithDecimal with
          | true =>
              -- only a dot follows a decimal
              have hdot : c = byte '.' := by
                simp only [bufferEndsWithDecimal, endsWithDot, hlast, Bool.and_eq_true,
                  decide_eq_true_eq, Option.some.injEq] at hdecimal
                exact hdecimal.1.2
              refine .held habbreviation hmarker ?_
              rw [if_pos hdot]
              simp [classify, hc, habbreviation, hmarker, hdecimal]
          | false =>
              cases hellipsis : s.bufferEndsWithEllipsis with
              | true =>
                  refine .ignored (.inr (.inr hellipsis)) ?_
                  simp [classify, hc, habbreviation, hmarker, hdecimal, hellipsis]
              | false =>
                  refine .held habbreviation hmarker ?_
                  simp [classify, hc, habbreviation, hmarker, hdecimal, hellipsis]

/-- What any other byte does then. -/
inductive TextStep (c : UInt8) (s : SentenceSplitter) : Prop
  | text (hstep : s.classify c = (s.bumpChars, []))
  | flushed (hsep : isWhitespace c = true ∨ c = byte ',')
      (hstep : s.classify c = s.bumpChars.flushBuffer)

theorem textStep (hc : isTerminator c = false) : s.TextStep c := by
  have hc' : ¬ isTerminator c = true := by rw [hc]; exact Bool.false_ne_true
  by_cases hflush : s.bumpChars.cfg.maxSentenceChars ≤ s.bumpChars.charsSinceTerminator ∧
      (isWhitespace c = true ∨ c = byte ',')
  · refine .flushed hflush.2 ?_
    simp only [classify, if_neg hc', if_pos hflush]
  · refine .text ?_
    simp only [classify, if_neg hc', if_neg hflush]

/-! ## The trace -/

theorem pushByte_out (c : UInt8) (s : SentenceSplitter) :
    (s.pushByte c).2 = s.resolved c ++ s.flushed c := by
  by_cases hfence : (s.append c).mode = .inCodeFence
  · simp [pushByte, resolved, flushed, cutAt, classifiedIn, hfence]
  · cases byteStep hfence with
    | classified hpending hcut hstep =>
        simp only [hstep, resolved, flushed, classifiedIn, if_neg hfence, hpending, hcut,
          List.nil_append]
    | dotRun pos hpending hcut hc hdot hstep =>
        simp only [hstep, resolved, flushed, classifiedIn, if_neg hfence, hpending, hcut,
          Option.map_none, List.nil_append]
    | kept pos hpending hcut hdot hwhy hstep =>
        simp only [hstep, resolved, flushed, classifiedIn, if_neg hfence, hpending, hcut,
          Option.map_none, List.nil_append]
    | cut pos hpending hcut hdot hrun hstep =>
        simp only [hstep, resolved, flushed, classifiedIn, if_neg hfence, hpending, hcut,
          Option.map_some]

/-- The sentences of the byte at position `k`. The cut is before the byte, the forced flush
takes it along. -/
def emissionsAt (k : Nat) (c : UInt8) (s : SentenceSplitter) : List Emission :=
  (s.resolved c).map (fun sentence => ⟨sentence, k, false⟩) ++
    (s.flushed c).map fun sentence => ⟨sentence, k + 1, true⟩

/-- The sentences of a text that begins at position `k`. -/
def emissions : Nat → Bytes → SentenceSplitter → List Emission
  | _, [], _ => []
  | k, c :: cs, s => s.emissionsAt k c ++ emissions (k + 1) cs (s.pushByte c).1

theorem map_emissions (k : Nat) (text : Bytes) (s : SentenceSplitter) :
    (emissions k text s).map Emission.sentence = (s.push text).2 := by
  induction text generalizing k s with
  | nil => rfl
  | cons c cs ih =>
      have hat : (s.emissionsAt k c).map Emission.sentence = (s.pushByte c).2 := by
        rw [pushByte_out, emissionsAt, List.map_append, List.map_map, List.map_map]
        exact congrArg₂ (· ++ ·) (List.map_id _) (List.map_id _)
      rw [emissions, List.map_append, hat, ih]
      rfl

theorem mem_emissions {e : Emission} {k : Nat} {text : Bytes} {s : SentenceSplitter} :
    e ∈ emissions k text s ↔ ∃ pre c post, text = pre ++ c :: post ∧
      e ∈ (s.push pre).1.emissionsAt (k + pre.length) c := by
  induction text generalizing k s with
  | nil =>
      constructor
      · intro h
        cases h
      · rintro ⟨pre, c, post, htext, -⟩
        cases pre <;> cases htext
  | cons b bs ih =>
      rw [emissions, List.mem_append, ih]
      constructor
      · rintro (h | ⟨pre, c, post, rfl, h⟩)
        · exact ⟨[], b, bs, rfl, h⟩
        · refine ⟨b :: pre, c, post, rfl, ?_⟩
          rwa [List.length_cons, Nat.add_comm pre.length 1, ← Nat.add_assoc]
      · rintro ⟨pre, c, post, htext, h⟩
        cases pre with
        | nil =>
            cases htext
            exact Or.inl h
        | cons a pre =>
            cases htext
            refine Or.inr ⟨pre, c, post, rfl, ?_⟩
            rwa [List.length_cons, Nat.add_comm pre.length 1, ← Nat.add_assoc] at h

/-- A condition on the bytes of a text, one position after the other. -/
theorem forall_split {P : Bytes → UInt8 → Bytes → Prop} {text : Bytes}
    (h : ∀ k (hk : k < text.length), P (text.take k) text[k] (text.drop (k + 1))) :
    ∀ pre c post, text = pre ++ c :: post → P pre c post := by
  rintro pre c post rfl
  have hat := h pre.length (by simp)
  have hdrop : (pre ++ c :: post).drop (pre.length + 1) = post := by
    rw [List.drop_length_add_append]
    rfl
  rw [List.take_left, List.getElem_append_right (Nat.le_refl _), hdrop] at hat
  simpa only [Nat.sub_self, List.getElem_cons_zero] using hat

/-! ## What is emitted -/

theorem emit_suffix {head x : Bytes} (h : x ∈ emit head) : x <:+ head := by
  unfold emit at h
  split at h
  · cases h
  · rw [List.mem_singleton] at h
    rw [h]
    exact List.dropWhile_suffix _

theorem classify_suffix {x : Bytes} (h : x ∈ (s.classify c).2) : x <:+ s.buf := by
  unfold classify at h
  split at h
  · repeat' split at h
    all_goals cases h
  · dsimp only at h
    split at h
    · exact emit_suffix h
    · cases h

theorem mem_resolved {x : Bytes} (h : x ∈ s.resolved c) :
    ∃ pos, s.cutAt c = some pos ∧ x <:+ (s.buf ++ [c]).take (pos + 1) := by
  unfold resolved at h
  cases hcut : s.cutAt c with
  | none =>
      rw [hcut] at h
      cases h
  | some pos =>
      rw [hcut] at h
      exact ⟨pos, rfl, emit_suffix h⟩

theorem mem_flushed {x : Bytes} (h : x ∈ s.flushed c) : x <:+ s.buf ++ [c] := by
  unfold flushed classifiedIn at h
  split at h
  · cases h
  next t ht =>
    refine (classify_suffix h).trans ?_
    split at ht
    · cases ht
    · split at ht
      · cases ht
        exact List.suffix_refl _
      · obtain ⟨pos, -, rfl⟩ := Option.map_eq_some_iff.mp ht
        exact List.drop_suffix _ _

/-- A position inside the buffer that is not white space leaves something to emit. -/
theorem resolved_ne_nil (hcut : s.cutAt c = some pos) (hlt : pos < s.buf.length)
    (hpos : isWhitespace (s.buf.getD pos 0) = false) : ∃ x, x ∈ s.resolved c := by
  have hmem : s.buf.getD pos 0 ∈ (s.buf ++ [c]).take (pos + 1) := by
    rw [List.take_append_of_le_length hlt, ← List.take_append_getElem hlt,
      List.getD_eq_getElem _ _ hlt]
    exact List.mem_append_right _ (List.mem_singleton_self _)
  have hne : trimLeading ((s.buf ++ [c]).take (pos + 1)) ≠ [] := by
    intro hnil
    have hall := List.dropWhile_eq_nil_iff.mp hnil _ hmem
    rw [hpos] at hall
    cases hall
  refine ⟨trimLeading ((s.buf ++ [c]).take (pos + 1)), ?_⟩
  unfold resolved
  rw [hcut]
  change _ ∈ emit _
  rw [emit, append_buf, if_neg hne]
  exact List.mem_singleton_self _

end SentenceSplitter

end Acva.Dialogue

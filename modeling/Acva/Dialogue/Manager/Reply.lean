import Acva.Dialogue.SentenceSplitter
import Mathlib.Algebra.Group.Nat.Defs

/-! # One reply and its sentence cap

The locals that the two LLM callbacks of `run_one` share. At the cap the machine
lets the sentence in flight finish, and cancels the stream once it has.
-/

namespace Acva.Dialogue

inductive CapState
  | none
  | pending
  | cancelled
deriving DecidableEq, Repr

/-- `cap = 0` means no cap. The cap state turns to `cancelled` where the source flips
the cancellation token, and nowhere else. -/
structure Reply where
  turn : TurnId
  lang : Bytes
  cap : UInt32
  splitter : SentenceSplitter
  seq : UInt32 := 0
  capState : CapState := .none
  published : List Event := []
deriving DecidableEq, Repr

namespace Reply

/-- The greatest cap there is has no backstop. -/
def capBackstop (r : Reply) : UInt32 := if 0 < r.cap then r.cap + 1 else 0

def pastBackstop (r : Reply) : Bool := 0 < r.capBackstop && r.capBackstop ≤ r.seq

def requestCancel (r : Reply) : Reply := { r with capState := .cancelled }

def publish (e : Event) (r : Reply) : Reply := { r with published := r.published ++ [e] }

def publishSentence (text : Bytes) (r : Reply) : Reply :=
  { r.publish (.llmSentence {
      turn := r.turn
      seq := r.seq.toNat
      text := text
      lang := r.lang }) with
    seq := r.seq + 1 }

/-- What the loop of `on_token` does with one completed sentence. -/
def emitSentence (text : Bytes) (r : Reply) : Reply :=
  if r.pastBackstop then r.requestCancel
  else
    let r := r.publishSentence text
    if r.capState = .none ∧ 0 < r.cap ∧ r.cap ≤ r.seq then { r with capState := .pending }
    else if r.capState = .pending then r.requestCancel
    else r

/-- The loop breaks where it has asked for the cancel. -/
def emitSentences : List Bytes → Reply → Reply
  | [], r => r
  | s :: ss, r =>
      let r := r.emitSentence s
      if r.capState = .cancelled then r else emitSentences ss r

def onToken (delta : Bytes) (r : Reply) : Reply :=
  if r.capState = .cancelled then r
  else
    let (splitter, emitted) := r.splitter.push delta
    let r := emitSentences emitted { r with splitter := splitter }
    if r.capState ≠ .cancelled then r.publish (.llmToken { turn := r.turn, token := delta })
    else r

/-- The loop over the flushed sentences; it breaks past the backstop. -/
def flushSentences : List Bytes → Reply → Reply
  | [], r => r
  | s :: ss, r => if r.pastBackstop then r else flushSentences ss (r.publishSentence s)

/-- The finish record is only logged. -/
def onFinished (r : Reply) : Reply :=
  let (splitter, emitted) := r.splitter.flush
  flushSentences emitted { r with splitter := splitter }

end Reply

/-! ## The sentences of a reply -/

/-- The sentence events among what was published. -/
def sentencesOf (es : List Event) : List LlmSentence :=
  es.filterMap fun
    | .llmSentence e => some e
    | _ => none

/-- The events that carry `texts` as the sentences of one turn. -/
def numbered (turn : TurnId) (lang : Bytes) (texts : List Bytes) : List LlmSentence :=
  texts.mapIdx fun i text => { turn := turn, seq := i, text := text, lang := lang }

@[simp] theorem sentencesOf_nil : sentencesOf [] = [] := rfl

theorem sentencesOf_append (as bs : List Event) :
    sentencesOf (as ++ bs) = sentencesOf as ++ sentencesOf bs := List.filterMap_append

@[simp] theorem sentencesOf_llmSentence (e : LlmSentence) : sentencesOf [.llmSentence e] = [e] := rfl

@[simp] theorem sentencesOf_llmToken (e : LlmToken) : sentencesOf [.llmToken e] = [] := rfl

@[simp] theorem sentencesOf_llmStarted (e : LlmStarted) : sentencesOf [.llmStarted e] = [] := rfl

@[simp] theorem sentencesOf_llmFinished (e : LlmFinished) : sentencesOf [.llmFinished e] = [] := rfl

theorem numbered_concat (turn : TurnId) (lang : Bytes) (texts : List Bytes) (t : Bytes) :
    numbered turn lang (texts ++ [t]) =
      numbered turn lang texts ++
        [{ turn := turn, seq := texts.length, text := t, lang := lang }] := by
  simp [numbered, List.mapIdx_append]

namespace Reply

variable {r : Reply} {texts : List Bytes}

/-- The events that the callbacks publish. -/
def ReplyEvent (turn : TurnId) : Event → Prop
  | .llmSentence e => e.turn = turn
  | .llmToken e => e.turn = turn
  | _ => False

/-- What every callback keeps: the run's own data, and what is on the bus already. -/
structure Continues (r r' : Reply) : Prop where
  turn : r'.turn = r.turn
  lang : r'.lang = r.lang
  cap : r'.cap = r.cap
  published : ∃ es, r'.published = r.published ++ es ∧ ∀ e ∈ es, ReplyEvent r.turn e

theorem Continues.refl (r : Reply) : Continues r r :=
  ⟨rfl, rfl, rfl, [], by simp, by simp⟩

theorem Continues.trans {r r' r'' : Reply} (h : Continues r r') (h' : Continues r' r'') :
    Continues r r'' := by
  obtain ⟨es, hes, hkind⟩ := h.published
  obtain ⟨es', hes', hkind'⟩ := h'.published
  refine ⟨h'.turn.trans h.turn, h'.lang.trans h.lang, h'.cap.trans h.cap, es ++ es', ?_, ?_⟩
  · rw [hes', hes, List.append_assoc]
  · intro e he
    rcases List.mem_append.mp he with he | he
    · exact hkind e he
    · exact h.turn ▸ hkind' e he

theorem publish_continues {e : Event} {r : Reply} (h : ReplyEvent r.turn e) :
    Continues r (r.publish e) :=
  ⟨rfl, rfl, rfl, [e], rfl, by simpa using h⟩

theorem publishSentence_continues (s : Bytes) (r : Reply) : Continues r (r.publishSentence s) :=
  ⟨rfl, rfl, rfl, _, rfl, by simp [ReplyEvent]⟩

theorem emitSentence_continues (s : Bytes) (r : Reply) : Continues r (r.emitSentence s) := by
  have hpub := publishSentence_continues s r
  unfold emitSentence
  split
  · exact ⟨rfl, rfl, rfl, [], by simp [requestCancel], by simp⟩
  · dsimp only
    split
    · exact ⟨rfl, rfl, rfl, hpub.published⟩
    · split
      · exact ⟨rfl, rfl, rfl, hpub.published⟩
      · exact hpub

theorem emitSentences_continues (ss : List Bytes) (r : Reply) :
    Continues r (emitSentences ss r) := by
  induction ss generalizing r with
  | nil => exact .refl r
  | cons s ss ih =>
      simp only [emitSentences]
      split
      · exact emitSentence_continues s r
      · exact (emitSentence_continues s r).trans (ih _)

theorem onToken_continues (delta : Bytes) (r : Reply) : Continues r (r.onToken delta) := by
  simp only [onToken]
  split
  · exact .refl r
  · have hfed : Continues r { r with splitter := (r.splitter.push delta).1 } :=
      ⟨rfl, rfl, rfl, [], by simp, by simp⟩
    have hloop := hfed.trans (emitSentences_continues (r.splitter.push delta).2 _)
    split
    · exact hloop.trans (publish_continues rfl)
    · exact hloop

theorem flushSentences_continues (ss : List Bytes) (r : Reply) :
    Continues r (flushSentences ss r) := by
  induction ss generalizing r with
  | nil => exact .refl r
  | cons s ss ih =>
      simp only [flushSentences]
      split
      · exact .refl r
      · exact (publishSentence_continues s r).trans (ih _)

theorem onFinished_continues (r : Reply) : Continues r r.onFinished := by
  have hfed : Continues r { r with splitter := r.splitter.flush.1 } :=
    ⟨rfl, rfl, rfl, [], by simp, by simp⟩
  exact hfed.trans (flushSentences_continues _ _)

/-- The backstop is one past the cap, where that can be counted. -/
theorem pastBackstop_iff (hcap : 0 < r.cap) :
    r.pastBackstop = true ↔ r.cap.toNat + 1 < 2 ^ 32 ∧ r.cap.toNat + 1 ≤ r.seq.toNat := by
  have hlt := r.cap.toNat_lt
  have hback : r.capBackstop = r.cap + 1 := if_pos hcap
  simp only [pastBackstop, hback, Bool.and_eq_true, decide_eq_true_eq,
    UInt32.lt_iff_toNat_lt, UInt32.le_iff_toNat_le, UInt32.toNat_add, UInt32.reduceToNat]
  omega

/-- The reply after its splitter has completed `texts`, of which it publishes one past
the cap at most. -/
structure Emitted (texts : List Bytes) (r : Reply) : Prop where
  cap_pos : 0 < r.cap
  capState : r.capState =
    if texts.length < r.cap.toNat then .none
    else if texts.length = r.cap.toNat then .pending else .cancelled
  seq : r.seq = UInt32.ofNat (min texts.length (r.cap.toNat + 1))
  sentences : sentencesOf r.published =
    numbered r.turn r.lang (texts.take (r.cap.toNat + 1))

theorem Emitted.cancelled_iff (h : Emitted texts r) :
    r.capState = .cancelled ↔ r.cap.toNat < texts.length := by
  rw [h.capState]
  by_cases hlt : texts.length < r.cap.toNat
  · rw [if_pos hlt]
    exact iff_of_false (by decide) (by omega)
  · rw [if_neg hlt]
    by_cases heq : texts.length = r.cap.toNat
    · rw [if_pos heq]
      exact iff_of_false (by decide) (by omega)
    · rw [if_neg heq]
      exact iff_of_true rfl (by omega)

/-- Past the cap nothing more is published, whatever the splitter would complete. -/
theorem Emitted.append_of_cancelled (h : Emitted texts r) (hc : r.cap.toNat < texts.length)
    (more : List Bytes) : Emitted (texts ++ more) r := by
  refine ⟨h.cap_pos, ?_, ?_, ?_⟩
  · rw [h.cancelled_iff.mpr hc, if_neg (by simp; omega), if_neg (by simp; omega)]
  · rw [h.seq, List.length_append]
    exact congrArg UInt32.ofNat (by omega)
  · rw [h.sentences, List.take_append_of_le_length hc]

theorem Emitted.seq_eq (h : Emitted texts r) (hc : texts.length ≤ r.cap.toNat) :
    r.seq = UInt32.ofNat texts.length := by
  rw [h.seq]
  exact congrArg UInt32.ofNat (by omega)

theorem Emitted.seq_toNat (h : Emitted texts r) (hc : texts.length ≤ r.cap.toNat) :
    r.seq.toNat = texts.length := by
  have hlt := r.cap.toNat_lt
  rw [h.seq_eq hc, UInt32.toNat_ofNat', Nat.mod_eq_of_lt (by omega)]

/-- Up to the cap the backstop is not reached. -/
theorem Emitted.not_pastBackstop (h : Emitted texts r) (hc : texts.length ≤ r.cap.toNat) :
    ¬ r.pastBackstop = true := by
  rw [pastBackstop_iff h.cap_pos, h.seq_toNat hc]
  omega

/-- Up to the cap every sentence is published under its own position. -/
theorem Emitted.publishSentence (h : Emitted texts r) (hc : texts.length ≤ r.cap.toNat)
    (s : Bytes) :
    sentencesOf (r.publishSentence s).published =
      numbered r.turn r.lang ((texts ++ [s]).take (r.cap.toNat + 1)) := by
  have htake : texts.take (r.cap.toNat + 1) = texts := List.take_of_length_le (by omega)
  have htake' : (texts ++ [s]).take (r.cap.toNat + 1) = texts ++ [s] :=
    List.take_of_length_le (by simp; omega)
  simp only [Reply.publishSentence, publish, sentencesOf_append, h.sentences, htake, htake',
    numbered_concat, sentencesOf_llmSentence, h.seq_toNat hc]

theorem Emitted.emitSentence (h : Emitted texts r) (hc : texts.length ≤ r.cap.toNat) (s : Bytes) :
    Emitted (texts ++ [s]) (r.emitSentence s) := by
  have hpos := h.cap_pos
  have hcap := r.cap.toNat_lt
  have hstate := h.capState
  have hsent := h.publishSentence hc s
  have hlen : (texts ++ [s]).length = texts.length + 1 := by simp
  have hseq : (r.publishSentence s).seq =
      UInt32.ofNat (min (texts ++ [s]).length (r.cap.toNat + 1)) := by
    rw [hlen, Nat.min_eq_left (by omega), UInt32.ofNat_add, ← h.seq_eq hc]
    rfl
  simp only [Reply.emitSentence, if_neg (h.not_pastBackstop hc)]
  rcases Nat.lt_or_ge texts.length r.cap.toNat with hlt | hge
  · rw [if_pos hlt] at hstate
    have hreached : r.cap ≤ (r.publishSentence s).seq ↔ r.cap.toNat ≤ texts.length + 1 := by
      rw [hseq, hlen, Nat.min_eq_left (by omega), UInt32.le_iff_toNat_le, UInt32.toNat_ofNat',
        Nat.mod_eq_of_lt (by omega)]
    by_cases hlast : r.cap.toNat ≤ texts.length + 1
    · -- the sentence that reaches the cap
      rw [if_pos ⟨hstate, hpos, hreached.mpr hlast⟩]
      refine ⟨hpos, ?_, hseq, hsent⟩
      show CapState.pending =
        if (texts ++ [s]).length < r.cap.toNat then .none
        else if (texts ++ [s]).length = r.cap.toNat then .pending else .cancelled
      rw [if_neg (by omega), if_pos (by omega)]
    · have hnone : ¬ (r.publishSentence s).capState = .pending := by
        show ¬ r.capState = .pending
        rw [hstate]
        decide
      rw [if_neg (fun hn => hlast (hreached.mp hn.2.2)), if_neg hnone]
      refine ⟨hpos, ?_, hseq, hsent⟩
      show r.capState =
        if (texts ++ [s]).length < r.cap.toNat then .none
        else if (texts ++ [s]).length = r.cap.toNat then .pending else .cancelled
      rw [hstate, if_pos (by omega)]
  · -- the sentence in flight at the cap
    rw [if_neg (by omega), if_pos (by omega)] at hstate
    have hpending : ¬ ((r.publishSentence s).capState = .none ∧
        0 < (r.publishSentence s).cap ∧ (r.publishSentence s).cap ≤ (r.publishSentence s).seq) := by
      rintro ⟨hnone, _⟩
      exact absurd (hstate.symm.trans hnone) (by decide)
    have hsame : (r.publishSentence s).capState = .pending := hstate
    rw [if_neg hpending, if_pos hsame]
    refine ⟨hpos, ?_, hseq, hsent⟩
    show CapState.cancelled =
      if (texts ++ [s]).length < r.cap.toNat then .none
      else if (texts ++ [s]).length = r.cap.toNat then .pending else .cancelled
    rw [if_neg (by omega), if_neg (by omega)]

theorem Emitted.emitSentences (h : Emitted texts r) (hc : texts.length ≤ r.cap.toNat)
    (ss : List Bytes) : Emitted (texts ++ ss) (emitSentences ss r) := by
  induction ss generalizing texts r with
  | nil => simpa [Reply.emitSentences] using h
  | cons s ss ih =>
      have hone := h.emitSentence hc s
      have hassoc : texts ++ s :: ss = (texts ++ [s]) ++ ss := by simp
      simp only [Reply.emitSentences]
      rw [hassoc]
      by_cases hstop : (r.emitSentence s).capState = .cancelled
      · rw [if_pos hstop]
        exact hone.append_of_cancelled (hone.cancelled_iff.mp hstop) ss
      · rw [if_neg hstop]
        exact ih hone (Nat.not_lt.mp (mt hone.cancelled_iff.mpr hstop))

/-- The finish callback publishes the one sentence a flush completes. -/
theorem Emitted.flushSentences (h : Emitted texts r) (hc : texts.length ≤ r.cap.toNat)
    {ss : List Bytes} (hone : ss.length ≤ 1) :
    sentencesOf (Reply.flushSentences ss r).published =
      numbered r.turn r.lang ((texts ++ ss).take (r.cap.toNat + 1)) := by
  match ss, hone with
  | [], _ =>
      rw [List.append_nil]
      exact h.sentences
  | [s], _ =>
      rw [Reply.flushSentences, if_neg (h.not_pastBackstop hc)]
      exact h.publishSentence hc s

theorem emitSentences_splitter (ss : List Bytes) (r : Reply) :
    (emitSentences ss r).splitter = r.splitter := by
  induction ss generalizing r with
  | nil => rfl
  | cons s ss ih =>
      have hone : (r.emitSentence s).splitter = r.splitter := by
        unfold emitSentence
        split
        · rfl
        · dsimp only
          split
          · rfl
          · split <;> rfl
      simp only [emitSentences]
      split
      · exact hone
      · rw [ih, hone]

/-! ## Whole streams -/

/-- The reply after `deltas`, all of them handed to its token callback. -/
def onTokens (deltas : List Bytes) (r : Reply) : Reply :=
  deltas.foldl (fun r delta => r.onToken delta) r

theorem onTokens_continues (deltas : List Bytes) (r : Reply) : Continues r (r.onTokens deltas) := by
  induction deltas generalizing r with
  | nil => exact .refl r
  | cons delta deltas ih => exact (onToken_continues delta r).trans (ih _)

/-- The splitter's own view of the stream, with no cap. -/
structure Streamed (sp : SentenceSplitter) (fed : Bytes) (r : Reply) : Prop where
  emitted : Emitted (sp.push fed).2 r
  splitter : r.capState ≠ .cancelled → r.splitter = (sp.push fed).1

/-- Before the first token. -/
theorem streamed_fresh (hcap : 0 < r.cap) (hstate : r.capState = .none) (hseq : r.seq = 0)
    (hpublished : r.published = []) : Streamed r.splitter [] r := by
  have hpos : 0 < r.cap.toNat := UInt32.lt_iff_toNat_lt.mp hcap
  refine ⟨⟨hcap, ?_, ?_, ?_⟩, fun _ => rfl⟩
  · exact hstate.trans (if_pos hpos).symm
  · rw [hseq]
    exact congrArg UInt32.ofNat (Nat.zero_min _).symm
  · rw [hpublished]
    rfl

theorem Streamed.onToken {sp : SentenceSplitter} {fed : Bytes} (h : Streamed sp fed r)
    (delta : Bytes) : Streamed sp (fed ++ delta) (r.onToken delta) := by
  have htexts : (sp.push (fed ++ delta)).2 =
      (sp.push fed).2 ++ ((sp.push fed).1.push delta).2 := by
    rw [SentenceSplitter.push_append]
  have hlast : (sp.push (fed ++ delta)).1 = ((sp.push fed).1.push delta).1 := by
    rw [SentenceSplitter.push_append]
  rcases Nat.lt_or_ge r.cap.toNat (sp.push fed).2.length with hlt | hge
  · -- cancelled: the callback returns at once
    have hstop := h.emitted.cancelled_iff.mpr hlt
    have hsame : r.onToken delta = r := by rw [Reply.onToken, if_pos hstop]
    rw [hsame]
    refine ⟨?_, fun hgo => absurd hstop hgo⟩
    rw [htexts]
    exact h.emitted.append_of_cancelled hlt _
  · have hgo : ¬ r.capState = .cancelled := fun hc =>
      Nat.not_lt.mpr hge (h.emitted.cancelled_iff.mp hc)
    have hfed : Emitted (sp.push fed).2 { r with splitter := (r.splitter.push delta).1 } :=
      ⟨h.emitted.cap_pos, h.emitted.capState, h.emitted.seq, h.emitted.sentences⟩
    have hloop := hfed.emitSentences hge (r.splitter.push delta).2
    rw [h.splitter hgo, ← htexts] at hloop
    have hsplit := emitSentences_splitter ((sp.push fed).1.push delta).2
      { r with splitter := ((sp.push fed).1.push delta).1 }
    simp only [Reply.onToken, if_neg hgo, h.splitter hgo]
    split
    · refine ⟨⟨hloop.cap_pos, hloop.capState, hloop.seq, ?_⟩, fun _ => hsplit.trans hlast.symm⟩
      simpa [publish, sentencesOf_append] using hloop.sentences
    · exact ⟨hloop, fun _ => hsplit.trans hlast.symm⟩

theorem Streamed.onTokens {sp : SentenceSplitter} {fed : Bytes} (h : Streamed sp fed r)
    (deltas : List Bytes) : Streamed sp (fed ++ deltas.flatten) (r.onTokens deltas) := by
  induction deltas generalizing fed r with
  | nil => simpa [Reply.onTokens] using h
  | cons delta deltas ih =>
      have hnext := ih (h.onToken delta)
      simpa [Reply.onTokens] using hnext

/-- Below the cap the finish callback leaves all sentences of the stream on the bus. -/
theorem Streamed.onFinished_of_le {cfg : SentenceSplitterConfig} {fed : Bytes}
    (h : Streamed { cfg := cfg } fed r)
    (hle : (({ cfg := cfg } : SentenceSplitter).push fed).2.length ≤ r.cap.toNat) :
    sentencesOf r.onFinished.published =
      numbered r.turn r.lang (splitSentences cfg fed) := by
  have hgo : r.capState ≠ .cancelled := fun hc =>
    Nat.not_lt.mpr hle (h.emitted.cancelled_iff.mp hc)
  have hfed : Emitted (({ cfg := cfg } : SentenceSplitter).push fed).2
      { r with splitter := r.splitter.flush.1 } :=
    ⟨h.emitted.cap_pos, h.emitted.capState, h.emitted.seq, h.emitted.sentences⟩
  have hwhole : splitSentences cfg fed =
      (({ cfg := cfg } : SentenceSplitter).push fed).2 ++ r.splitter.flush.2 := by
    rw [h.splitter hgo]
    rfl
  have hone := r.splitter.flush_length_le
  have hroom : (splitSentences cfg fed).length ≤ r.cap.toNat + 1 := by
    rw [hwhole, List.length_append]
    exact Nat.add_le_add hle hone
  have hall := hfed.flushSentences hle hone
  rw [← hwhole, List.take_of_length_le hroom] at hall
  exact hall

end Reply

end Acva.Dialogue

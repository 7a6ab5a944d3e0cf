import Acva.Dialogue.TurnWriter.Calculus

/-! # The order of sentences and ends of playback

However the sentences of a turn and the ends of their playback are mixed, the writer
leaves the same rows, unless a playback ends at the last position there is.
-/

namespace Acva.Dialogue

open Acva.Memory

namespace TurnWriter

/-! ## The last position -/

/-- An end of playback at the last position cannot be handled while its turn is in flight. -/
theorem onEvent_in_flight {t : TurnId} {now : UnixMs} {e : Event} {w w' : TurnWriter}
    {st : AssistantState} (hst : w.inFlight t = some st) (hsmall : Small st)
    (hstart : ¬ IsStart t e) (hfinish : ¬ IsFinish t e) (hw' : w.onEvent now e = some w') :
    (∃ st', w'.inFlight t = some st' ∧ Small st') ∧ lastPosition ∉ playedIn t [(now, e)] := by
  rcases sentence_or_playback t now e with ⟨s, hturn, rfl⟩ | ⟨p, hturn, rfl⟩ | hother
  · simp only [onEvent, handleSentence, hturn, hst, Option.getD_some,
      Option.map_eq_some_iff] at hw'
    obtain ⟨st', hst', rfl⟩ := hw'
    exact ⟨⟨st', Function.update_self .., hsmall.addSentence hst'⟩, List.not_mem_nil⟩
  · simp only [onEvent, handlePlaybackFinished, hturn, hst, Option.map_eq_some_iff] at hw'
    obtain ⟨st', hst', rfl⟩ := hw'
    refine ⟨⟨st', Function.update_self .., hsmall.markPlayed hst'⟩, fun hlast => ?_⟩
    have hseq : p.seq = lastPosition := by simpa [playedIn, hturn, eq_comm] using hlast
    exact Nat.ne_of_lt (hsmall.lt_of_markPlayed hst') hseq
  · obtain ⟨hsentence, -, hplayed⟩ := hother
    rw [hplayed]
    have hsame := onEvent_sameTurn hw' hstart hsentence hfinish hplayed
    exact ⟨⟨st, hsame.inFlight.trans hst, hsmall⟩, List.not_mem_nil⟩

theorem onEvents_in_flight {t : TurnId} {es : List (UnixMs × Event)} {w w' : TurnWriter}
    {st : AssistantState} (hst : w.inFlight t = some st) (hsmall : Small st)
    (hes : ∀ e ∈ es, ¬ IsStart t e.2 ∧ ¬ IsFinish t e.2) (hw' : w.onEvents es = some w') :
    lastPosition ∉ playedIn t es := by
  induction es generalizing w st with
  | nil => exact List.not_mem_nil
  | cons e es ih =>
      obtain ⟨now, e⟩ := e
      rw [onEvents_cons] at hw'
      obtain ⟨w₁, hw₁, hrest⟩ := Option.bind_eq_some_iff.mp hw'
      obtain ⟨hstart, hfinish⟩ := hes _ List.mem_cons_self
      obtain ⟨⟨st₁, hst₁, hsmall₁⟩, hlast⟩ := onEvent_in_flight hst hsmall hstart hfinish hw₁
      rw [← List.singleton_append, playedIn_append, List.mem_append, not_or]
      exact ⟨hlast, ih hst₁ hsmall₁ (fun x hx => hes x (List.mem_cons_of_mem _ hx)) hrest⟩

theorem last_notMem_of_reply {t : TurnId} {es : List (UnixMs × Event)} {w w' : TurnWriter}
    (hidle : w.inFlight t = none) (hes : ∀ e ∈ es, ¬ IsStart t e.2 ∧ ¬ IsFinish t e.2)
    {startedAt finishedAt : UnixMs} {cancelled : Bool} {tokensGenerated : Nat}
    (hw' : w.onEvents (replyEvents t startedAt es finishedAt cancelled tokensGenerated) =
      some w') : lastPosition ∉ playedIn t es := by
  rw [replyEvents, List.cons_append, onEvents_cons] at hw'
  obtain ⟨w₁, hw₁, hrest⟩ := Option.bind_eq_some_iff.mp hw'
  simp only [onEvent, handleStarted, hidle, Option.some.injEq] at hw₁
  have hst₁ : w₁.inFlight t = some { startedAt := startedAt } := by
    rw [← hw₁]
    exact Function.update_self ..
  rw [onEvents_append] at hrest
  obtain ⟨w₂, hw₂, -⟩ := Option.bind_eq_some_iff.mp hrest
  exact onEvents_in_flight hst₁ ⟨Nat.zero_le _, Nat.zero_le _⟩ hes hw₂

/-! ## Any order -/

/-- An order of the sentences `ss` and the ends of playback `ps` of turn `t`. Other turns may
have events in between. -/
structure Orders (t : TurnId) (ss : List LlmSentence) (ps : List SequenceNo)
    (es : List (UnixMs × Event)) : Prop where
  sentences : (sentencesIn t es).Perm ss
  played : (playedIn t es).Perm ps
  between : ∀ e ∈ es, ¬ IsStart t e.2 ∧ ¬ IsFinish t e.2
  others : ∀ e ∈ es, ¬ IsSentence t e.2 → playedIn t [e] = [] → InReach e.2

/-- What a row remembers of a reply: its text, its status, and how much of it was played. -/
def remembered (j : InsertTurnJob) : Bytes × TurnStatus × Option Int :=
  (j.text, j.status, j.interruptedAt)

/-- The rows a reply should leave. -/
def replyRows (session : SessionId) (cancelled : Bool) (ss : List LlmSentence)
    (ps : List SequenceNo) : List (Bytes × TurnStatus × Option Int) :=
  let texts := orderedTexts
    (ss.filter fun s => s.text ≠ [] && (!cancelled || decide (s.seq ∈ ps)))
  if session = 0 ∨ (cancelled = true ∧ texts = []) then []
  else
    [([byte ' '].intercalate texts, if cancelled = true then .interrupted else .committed,
      if cancelled = true then some (texts.length : Int) else none)]

/-- In whatever order the sentences and ends of playback are handled, the reply leaves the same
rows. -/
def AnyOrder (w : TurnWriter) (t : TurnId) (cancelled : Bool) (ss : List LlmSentence)
    (ps : List SequenceNo) : Prop :=
  ∀ es, Orders t ss ps es → ∀ (startedAt finishedAt : UnixMs) (tokensGenerated : Nat),
    ∃ w', w.onEvents (replyEvents t startedAt es finishedAt cancelled tokensGenerated) = some w' ∧
      (w'.assistantRows t).map remembered =
        (w.assistantRows t).map remembered ++ replyRows w.session cancelled ss ps

/-- What the state of the turn persists is what the reply should leave. -/
theorem replyRows_eq {t : TurnId} {ss : List LlmSentence} {ps : List SequenceNo}
    {es : List (UnixMs × Event)} (horder : Orders t ss ps es) (hdistinct : (ss.map (·.seq)).Nodup)
    {st : AssistantState} (htracks : Tracks (sentencesIn t es) (playedIn t es) st)
    (session : SessionId) (finishedAt : UnixMs) (cancelled : Bool) :
    (if session = 0 ∨ (cancelled = true ∧ st.persistedTexts cancelled = []) then []
      else [assistantJob session finishedAt cancelled st]).map remembered =
      replyRows session cancelled ss ps := by
  have hdistinct' : ((sentencesIn t es).map (·.seq)).Nodup :=
    (horder.sentences.map _).nodup_iff.mpr hdistinct
  have hplayed : (fun s : LlmSentence =>
        s.text ≠ [] && (!cancelled || decide (s.seq ∈ playedIn t es))) =
      fun s => s.text ≠ [] && (!cancelled || decide (s.seq ∈ ps)) := by
    funext s
    rw [decide_eq_decide.mpr horder.played.mem_iff]
  have htexts : st.persistedTexts cancelled = orderedTexts
      (ss.filter fun s => s.text ≠ [] && (!cancelled || decide (s.seq ∈ ps))) := by
    rw [htracks.persistedTexts_eq hdistinct', hplayed]
    refine congrArg (List.map _) (Slots.mergeSort_of_perm ?_ (horder.sentences.filter _))
    exact hdistinct'.sublist (List.filter_sublist.map _)
  have hjoin : joinSentences (st.persistedTexts cancelled) =
      [byte ' '].intercalate (st.persistedTexts cancelled) := by
    refine Slots.join_eq_intercalate _ fun text htext => ?_
    rw [htexts] at htext
    obtain ⟨s, hs, rfl⟩ := List.mem_map.mp htext
    have hkept := List.of_mem_filter ((List.mergeSort_perm _ _).mem_iff.mp hs)
    exact of_decide_eq_true (Bool.and_eq_true_iff.mp hkept).1
  simp only [replyRows, ← htexts]
  split
  · rfl
  · rw [← hjoin]
    rfl

theorem replyEvents_inReach {es : List (UnixMs × Event)} (h : ∀ e ∈ es, InReach e.2) (t : TurnId)
    (startedAt finishedAt : UnixMs) (cancelled : Bool) (tokensGenerated : Nat) :
    ∀ e ∈ replyEvents t startedAt es finishedAt cancelled tokensGenerated, InReach e.2 := by
  intro e he
  simp only [replyEvents, List.cons_append, List.mem_cons, List.mem_append, List.not_mem_nil,
    or_false] at he
  rcases he with rfl | he | rfl
  · exact fun seq hseq => absurd hseq (Option.not_mem_none seq)
  · exact h e he
  · exact fun seq hseq => absurd hseq (Option.not_mem_none seq)

theorem Orders.inReach {t : TurnId} {ss : List LlmSentence} {ps : List SequenceNo}
    {es : List (UnixMs × Event)} (h : Orders t ss ps es) (hss : ∀ s ∈ ss, s.seq < lastPosition)
    (hps : ∀ p ∈ ps, p < lastPosition) : ∀ e ∈ es, InReach e.2 := by
  intro e he
  obtain ⟨now, e⟩ := e
  rcases sentence_or_playback t now e with ⟨s, hturn, rfl⟩ | ⟨p, hturn, rfl⟩ | hother
  · have hmem : s ∈ sentencesIn t es := List.mem_filterMap.mpr ⟨_, he, if_pos hturn⟩
    rintro seq ⟨⟩
    exact hss s (h.sentences.mem_iff.mp hmem)
  · have hmem : p.seq ∈ playedIn t es := List.mem_filterMap.mpr ⟨_, he, if_pos hturn⟩
    rintro seq ⟨⟩
    exact hps p.seq (h.played.mem_iff.mp hmem)
  · exact h.others _ he hother.1 hother.2.2

/-- First the sentences, then the ends of playback. -/
theorem orders_inOrder {t : TurnId} {ss : List LlmSentence} (hturn : ∀ s ∈ ss, s.turn = t)
    (ps : List SequenceNo) :
    Orders t ss ps (ss.map (fun s => (0, .llmSentence s)) ++
      ps.map (fun p => (0, .playbackFinished { turn := t, seq := p }))) where
  sentences := by
    rw [sentencesIn, List.filterMap_append, List.filterMap_map, List.filterMap_map]
    have hall : ss.filterMap some = ss := List.filterMap_some
    have hnone : ps.filterMap (fun _ => (none : Option LlmSentence)) = [] :=
      List.filterMap_none ..
    refine List.Perm.of_eq ((congrArg₂ (· ++ ·) ?_ hnone).trans (List.append_nil _))
    exact (List.filterMap_congr fun s hs => if_pos (hturn s hs)).trans hall
  played := by
    rw [playedIn, List.filterMap_append, List.filterMap_map, List.filterMap_map]
    have hnone : ss.filterMap (fun _ => (none : Option SequenceNo)) = [] :=
      List.filterMap_none ..
    have hall : ps.filterMap some = ps := List.filterMap_some
    refine List.Perm.of_eq ((congrArg₂ (· ++ ·) hnone ?_).trans (List.nil_append _))
    exact (List.filterMap_congr fun p _ => if_pos rfl).trans hall
  between := by
    intro e he
    rcases List.mem_append.mp he with he | he
    · obtain ⟨s, -, rfl⟩ := List.mem_map.mp he
      exact ⟨id, id⟩
    · obtain ⟨p, -, rfl⟩ := List.mem_map.mp he
      exact ⟨id, id⟩
  others := by
    intro e he hsentence hplayed
    rcases List.mem_append.mp he with he | he
    · obtain ⟨s, hs, rfl⟩ := List.mem_map.mp he
      exact absurd (hturn s hs) hsentence
    · obtain ⟨p, -, rfl⟩ := List.mem_map.mp he
      simp [playedIn] at hplayed

/-- The order is of no account exactly if no playback ends at the last position. -/
theorem anyOrder_iff {w : TurnWriter} {t : TurnId} (hidle : w.inFlight t = none)
    (cancelled : Bool) {ss : List LlmSentence} {ps : List SequenceNo}
    (hturn : ∀ s ∈ ss, s.turn = t) (hdistinct : (ss.map (·.seq)).Nodup)
    (hss : ∀ s ∈ ss, s.seq < lastPosition) (hps : ∀ p ∈ ps, p < 2 ^ 32) :
    AnyOrder w t cancelled ss ps ↔ lastPosition ∉ ps := by
  constructor
  · intro h
    have horder := orders_inOrder hturn ps
    obtain ⟨w', hw', -⟩ := h _ horder 0 0 0
    rw [← horder.played.mem_iff]
    exact last_notMem_of_reply hidle horder.between hw'
  · intro hlast es horder startedAt finishedAt tokensGenerated
    have hps' : ∀ p ∈ ps, p < lastPosition := by
      intro p hp
      have hne : p ≠ lastPosition := fun heq => hlast (heq ▸ hp)
      exact Nat.lt_of_le_of_ne (Nat.le_pred_of_lt (hps p hp)) hne
    have hreach := replyEvents_inReach (horder.inReach hss hps') t startedAt finishedAt
      cancelled tokensGenerated
    obtain ⟨w', hw'⟩ := exists_onEvents_of_inReach hreach w
    obtain ⟨st, htracks, -, hrows⟩ := onEvents_reply hw' hidle horder.between
    refine ⟨w', hw', ?_⟩
    rw [hrows, List.map_append, replyRows_eq horder hdistinct htracks]

def twoSentences : List LlmSentence :=
  [{ turn := 1, seq := 0, text := ascii "One." }, { turn := 1, seq := 1, text := ascii "Two." }]

/-- Cancelled after the second of two sentences was played. -/
theorem anyOrder_two : AnyOrder { session := 1 } 1 true twoSentences [1] :=
  (anyOrder_iff rfl true (by decide) (by decide) (by decide +kernel) (by decide)).mpr
    (by decide +kernel)

/-- The vectors are emptied to make room for the last position. -/
theorem not_anyOrder_last : ¬AnyOrder { session := 1 } 1 false twoSentences [lastPosition] := by
  intro h
  have hturn : ∀ s ∈ twoSentences, s.turn = 1 := by decide
  obtain ⟨w', hw', -⟩ := h _ (orders_inOrder hturn [lastPosition]) 0 0 0
  have hnone : ({ session := 1 } : TurnWriter).onEvents (replyEvents 1 0
      (twoSentences.map (fun s => (0, .llmSentence s)) ++
        [lastPosition].map (fun p => (0, .playbackFinished { turn := 1, seq := p }))) 0 false 0) =
      none := rfl
  rw [hnone] at hw'
  cases hw'

end TurnWriter

end Acva.Dialogue

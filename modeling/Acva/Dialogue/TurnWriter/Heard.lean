import Acva.Dialogue.TurnWriter.Calculus

/-! # What the user heard of an interrupted reply

The policy: an interrupted reply is remembered as the sentences whose playback
had ended when the interruption came. The writer does not look at the
interruption. It decides at the end of the LLM stream, which may come before the
interruption or after further sentences were played. What it writes past the end of
a vector is undefined, and then nothing is remembered.
-/

namespace Acva.Dialogue

open Acva.Memory

namespace TurnWriter

/-- The rows an interrupted turn should have, by status and text, when the positions `heard`
were played before the interruption. -/
def heardRows (ss : List LlmSentence) (heard : List SequenceNo) : List (TurnStatus × Bytes) :=
  let texts := orderedTexts (ss.filter fun s => decide (s.seq ∈ heard))
  if texts = [] then [] else [(.interrupted, joinSentences texts)]

/-! ## Rows tell what was heard -/

variable {ss : List LlmSentence} {ps qs : List SequenceNo}

theorem orderedTexts_ne_nil (hne : ∀ s ∈ ss, s.text ≠ []) :
    ∀ x ∈ orderedTexts ss, x ≠ [] := by
  intro x hx
  obtain ⟨s, hs, rfl⟩ := List.mem_map.mp hx
  exact hne s ((List.mergeSort_perm _ _).mem_iff.mp hs)

/-- Having heard less shows in the rows. -/
theorem heardRows_ne_of_missing (hdistinct : (ss.map (·.seq)).Nodup)
    (hne : ∀ s ∈ ss, s.text ≠ []) (hsub : ∀ s ∈ ss, s.seq ∈ ps → s.seq ∈ qs)
    {s : LlmSentence} (hs : s ∈ ss) (hp : s.seq ∉ ps) (hq : s.seq ∈ qs) :
    heardRows ss ps ≠ heardRows ss qs := by
  have hpart := Slots.mergeSort_filter_sublist hdistinct
    (p := fun s => decide (s.seq ∈ ps)) (q := fun s => decide (s.seq ∈ qs))
    (fun x hx h => by simpa using hsub x hx (by simpa using h))
  have hshort : (orderedTexts (ss.filter fun s => decide (s.seq ∈ ps))).length <
      (orderedTexts (ss.filter fun s => decide (s.seq ∈ qs))).length := by
    simp only [orderedTexts, List.length_map]
    refine Nat.lt_of_le_of_ne hpart.length_le fun heq => ?_
    have hsame := hpart.eq_of_length heq
    have hmem : s ∈ (ss.filter fun s => decide (s.seq ∈ qs)).mergeSort
        (fun a b => a.seq ≤ b.seq) :=
      (List.mergeSort_perm _ _).mem_iff.mpr (List.mem_filter.mpr ⟨hs, by simpa using hq⟩)
    rw [← hsame] at hmem
    have hplayed := List.of_mem_filter ((List.mergeSort_perm _ _).mem_iff.mp hmem)
    exact hp (by simpa using hplayed)
  have htexts : ∀ x ∈ orderedTexts (ss.filter fun s => decide (s.seq ∈ qs)), x ≠ [] :=
    orderedTexts_ne_nil (fun x hx => hne x (List.mem_of_mem_filter hx))
  have hpartTexts : (orderedTexts (ss.filter fun s => decide (s.seq ∈ ps))).Sublist
      (orderedTexts (ss.filter fun s => decide (s.seq ∈ qs))) := hpart.map _
  have hjoin := Slots.length_join_lt (byte ' ') hpartTexts hshort htexts
  have hsome : orderedTexts (ss.filter fun s => decide (s.seq ∈ qs)) ≠ [] := by
    intro hnil
    simp [hnil] at hshort
  simp only [heardRows, if_neg hsome]
  split
  · simp
  · intro heq
    simp only [List.cons.injEq, Prod.mk.injEq, and_true, true_and] at heq
    exact absurd (congrArg List.length heq) (Nat.ne_of_lt hjoin)

theorem heardRows_ne_committed {text : Bytes} :
    heardRows ss ps ≠ [(TurnStatus.committed, text)] := by
  simp only [heardRows]
  split <;> simp

/-- Two sets of played positions, one of them a part of the other, give the same rows
exactly if they hold the same sentences. -/
theorem heardRows_eq_iff (hdistinct : (ss.map (·.seq)).Nodup) (hne : ∀ s ∈ ss, s.text ≠ [])
    (hcomp : (∀ s ∈ ss, s.seq ∈ ps → s.seq ∈ qs) ∨ ∀ s ∈ ss, s.seq ∈ qs → s.seq ∈ ps) :
    heardRows ss ps = heardRows ss qs ↔ ∀ s ∈ ss, s.seq ∈ ps ↔ s.seq ∈ qs := by
  constructor
  · intro heq s hs
    rcases hcomp with hpq | hqp
    · refine ⟨hpq s hs, fun hq => ?_⟩
      by_contra hp
      exact heardRows_ne_of_missing hdistinct hne hpq hs hp hq heq
    · refine ⟨fun hp => ?_, hqp s hs⟩
      by_contra hq
      exact heardRows_ne_of_missing hdistinct hne hqp hs hq hp heq.symm
  · intro hsame
    have hfilter : (ss.filter fun s => decide (s.seq ∈ ps)) =
        ss.filter fun s => decide (s.seq ∈ qs) :=
      List.filter_congr fun s hs => by simp [hsame s hs]
    simp only [heardRows, hfilter]

/-! ## The policy -/

/-- The interruption of the turn, somewhere in what the writer handles. -/
structure InterruptedAt (o : ReplyOrder) (upTo : List (UnixMs × Event)) : Prop where
  cut : ∃ now ts later,
    o.events = upTo ++ (now, .userInterrupted { turn := o.turn, ts := ts }) :: later

/-- The sentences of the turn are what the manager publishes: every position once, and no
empty text. No playback of the turn ends before the turn starts. -/
structure WellFormed (o : ReplyOrder) : Prop extends o.OneReply where
  distinct : (o.sentences.map (·.seq)).Nodup
  nonempty : ∀ s ∈ o.sentences, s.text ≠ []
  playback : playedIn o.turn o.before = []

/-- The rows written for the turn are those of what was heard up to the interruption. -/
def RemembersHeard (sid : SessionId) (o : ReplyOrder) (upTo : List (UnixMs × Event)) : Prop :=
  ∃ w', ({ session := sid } : TurnWriter).onEvents o.events = some w' ∧
    (w'.assistantRows o.turn).map (fun j => (j.status, j.text)) =
      heardRows o.sentences (playedIn o.turn upTo)

/-- What was played up to the interruption and what was played up to the end of the stream
are beginnings of the same list. -/
theorem played_comparable {o : ReplyOrder} (ho : WellFormed o) {upTo : List (UnixMs × Event)}
    (hcut : InterruptedAt o upTo) :
    playedIn o.turn o.during <+: playedIn o.turn upTo ∨
      playedIn o.turn upTo <+: playedIn o.turn o.during := by
  obtain ⟨now, ts, later, hevents⟩ := hcut.cut
  have hall : playedIn o.turn o.events =
      playedIn o.turn o.during ++ playedIn o.turn o.after := by
    have hstart : ∀ es, playedIn o.turn ((o.startedAt, .llmStarted { turn := o.turn }) :: es) =
        playedIn o.turn es := fun _ => rfl
    have hfinish : ∀ es, playedIn o.turn ((o.finishedAt, .llmFinished
          { turn := o.turn, cancelled := o.cancelled, tokensGenerated := o.tokensGenerated }) ::
        es) = playedIn o.turn es := fun _ => rfl
    simp only [ReplyOrder.events, List.append_assoc, List.cons_append, playedIn_append, hstart,
      hfinish, ho.playback, List.nil_append]
  have hduring : playedIn o.turn o.during <+: playedIn o.turn o.events := ⟨_, hall.symm⟩
  have hupTo : playedIn o.turn upTo <+: playedIn o.turn o.events := by
    rw [hevents, playedIn_append]
    exact List.prefix_append _ _
  exact List.prefix_or_prefix_of_prefix hduring hupTo

/-- A writer that handles the reply has the rows of what was heard exactly if the stream ended
as cancelled, and no sentence of the turn ended its playback between the interruption and the end
of the stream, whichever of the two came first. -/
theorem heardRows_onEvents_iff {sid : SessionId} (hsid : sid ≠ 0) {o : ReplyOrder}
    (ho : WellFormed o) {upTo : List (UnixMs × Event)} (hcut : InterruptedAt o upTo)
    {w' : TurnWriter} (hw' : ({ session := sid } : TurnWriter).onEvents o.events = some w') :
    (w'.assistantRows o.turn).map (fun j => (j.status, j.text)) =
        heardRows o.sentences (playedIn o.turn upTo) ↔ o.cancelled = true ∧
      ∀ s ∈ o.sentences, s.seq ∈ playedIn o.turn o.during ↔ s.seq ∈ playedIn o.turn upTo := by
  obtain ⟨st, htracks, hrows⟩ := assistantRows_onEvents ho.toOneReply hsid hw'
  have htexts := htracks.persistedTexts ho.distinct ho.nonempty o.cancelled
  rw [hrows]
  cases hc : o.cancelled with
  | false =>
      -- the row is committed, whatever was heard
      rw [if_neg (by simp)]
      exact iff_of_false (fun heq => heardRows_ne_committed heq.symm) (by simp)
  | true =>
      have hcomp : (∀ s ∈ o.sentences, s.seq ∈ playedIn o.turn o.during →
            s.seq ∈ playedIn o.turn upTo) ∨
          ∀ s ∈ o.sentences, s.seq ∈ playedIn o.turn upTo → s.seq ∈ playedIn o.turn o.during :=
        (played_comparable ho hcut).imp (fun h s _ hs => h.subset hs) (fun h s _ hs => h.subset hs)
      have hsame : ((if true = true ∧ st.persistedTexts true = [] then []
          else [assistantJob sid o.finishedAt true st]).map fun j => (j.status, j.text)) =
          heardRows o.sentences (playedIn o.turn o.during) := by
        rw [hc] at htexts
        simp only [heardRows, htexts, Bool.not_true, Bool.false_or, true_and, assistantJob]
        split <;> simp
      rw [hsame, heardRows_eq_iff ho.distinct ho.nonempty hcomp]
      simp

/-- A reply of two sentences, cancelled while it still streams: the first is heard. -/
def cutShort : ReplyOrder where
  turn := 1
  before := []
  startedAt := 1
  during := [(2, .llmSentence { turn := 1, seq := 0, text := ascii "One." }),
    (3, .llmSentence { turn := 1, seq := 1, text := ascii "Two." }),
    (4, .playbackFinished { turn := 1, seq := 0 }), (5, .userInterrupted { turn := 1 })]
  finishedAt := 6
  cancelled := true
  tokensGenerated := 2
  after := []

/-- The usual order: the stream is over before the playback, and the user interrupts after
the first of two sentences. -/
def talkedOver : ReplyOrder where
  turn := 1
  before := []
  startedAt := 1
  during := [(2, .llmSentence { turn := 1, seq := 0, text := ascii "One." }),
    (3, .llmSentence { turn := 1, seq := 1, text := ascii "Two." })]
  finishedAt := 4
  cancelled := false
  tokensGenerated := 2
  after := [(5, .playbackFinished { turn := 1, seq := 0 }), (6, .userInterrupted { turn := 1 })]

end TurnWriter

end Acva.Dialogue

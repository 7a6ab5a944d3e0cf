import Acva.Dialogue.TurnWriter.Machine

/-! # What the writer knows of a turn

The state of a turn in flight is a function of the sentences and the ends of
playback seen since its start. Events of other turns neither read nor write it.
-/

namespace Acva.Dialogue

open Acva.Memory

/-! ## The events of one turn -/

/-- The sentences of turn `t`, in the order they are handled. -/
def sentencesIn (t : TurnId) (es : List (UnixMs × Event)) : List LlmSentence :=
  es.filterMap fun e => match e.2 with
    | .llmSentence s => if s.turn = t then some s else none
    | _ => none

/-- The positions of turn `t` whose end of playback is handled. -/
def playedIn (t : TurnId) (es : List (UnixMs × Event)) : List SequenceNo :=
  es.filterMap fun e => match e.2 with
    | .playbackFinished p => if p.turn = t then some p.seq else none
    | _ => none

/-- The texts of sentences in the order of their positions. -/
def orderedTexts (ss : List LlmSentence) : List Bytes :=
  (ss.mergeSort (fun a b => a.seq ≤ b.seq)).map (·.text)

theorem playedIn_append (t : TurnId) (as bs : List (UnixMs × Event)) :
    playedIn t (as ++ bs) = playedIn t as ++ playedIn t bs := List.filterMap_append

/-! ## One turn's state -/

/-- The text last announced for a position. -/
def textAt (ss : List LlmSentence) (i : Nat) : Bytes :=
  ((ss.reverse.find? (·.seq = i)).map (·.text)).getD []

theorem textAt_concat (ss : List LlmSentence) (e : LlmSentence) (i : Nat) :
    textAt (ss ++ [e]) i = if e.seq = i then e.text else textAt ss i := by
  simp only [textAt, List.reverse_append, List.reverse_singleton, List.singleton_append,
    List.find?_cons]
  by_cases h : e.seq = i
  · simp [h]
  · simp [h]

/-- With distinct positions it does not matter which announcement is the last. -/
theorem textAt_of_distinct {ss : List LlmSentence} (h : (ss.map (·.seq)).Nodup) (i : Nat) :
    textAt ss i = ((ss.find? (·.seq = i)).map (·.text)).getD [] := by
  cases hfind : ss.find? (·.seq = i) with
  | none =>
      have hnone : ss.reverse.find? (·.seq = i) = none := by
        rw [List.find?_eq_none] at hfind ⊢
        exact fun x hx => hfind x (List.mem_reverse.mp hx)
      simp [textAt, hnone]
  | some s =>
      have hs := List.mem_of_find?_eq_some hfind
      have hseq : s.seq = i := by simpa using List.find?_some hfind
      cases hrev : ss.reverse.find? (·.seq = i) with
      | none =>
          have := List.find?_eq_none.mp hrev s (List.mem_reverse.mpr hs)
          simp [hseq] at this
      | some s' =>
          have hs' := List.mem_reverse.mp (List.mem_of_find?_eq_some hrev)
          have hseq' : s'.seq = i := by simpa using List.find?_some hrev
          have heq : s' = s := List.inj_on_of_nodup_map h hs' hs (hseq'.trans hseq.symm)
          simp [textAt, hrev, heq]

/-- The state of a turn after the sentences `ss` and the ends of playback `ps`. -/
structure Tracks (ss : List LlmSentence) (ps : List SequenceNo) (st : AssistantState) : Prop where
  lengths : st.played.length = st.sentences.length
  text : ∀ i, st.sentences.getD i [] = textAt ss i
  played : ∀ i, st.played.getD i false = decide (i ∈ ps)

namespace Tracks

variable {ss : List LlmSentence} {ps : List SequenceNo} {st : AssistantState}

theorem initial (now : UnixMs) : Tracks [] [] { startedAt := now } :=
  ⟨rfl, fun i => by simp [textAt], fun i => by simp⟩

/-- A write within bounds finds the vectors grown as far as the position needs. -/
theorem fit_eq (h : Tracks ss ps st) {length : Nat} (hlength : length = st.sentences.length)
    {seq : SequenceNo} (hroom : seq < (st.fit length seq).sentences.length) :
    st.fit length seq = { st with
      sentences := Slots.fit seq [] st.sentences
      played := Slots.fit seq false st.played } := by
  subst hlength
  unfold AssistantState.fit at hroom ⊢
  by_cases hshort : st.sentences.length ≤ seq
  · rw [if_pos hshort] at hroom ⊢
    have hgrown : seq < sizeFor seq := by
      rwa [AssistantState.resize, Slots.length_resize] at hroom
    have hsize : sizeFor seq = seq + 1 :=
      Nat.le_antisymm (Nat.mod_le _ _) (Nat.succ_le_of_lt hgrown)
    simp only [AssistantState.resize, Slots.fit, hsize, h.lengths, if_pos hshort]
  · rw [if_neg hshort]
    simp only [Slots.fit, h.lengths, if_neg hshort]

theorem grow (h : Tracks ss ps st) (seq : SequenceNo) :
    Tracks ss ps { st with
      sentences := Slots.fit seq [] st.sentences
      played := Slots.fit seq false st.played } := by
  refine ⟨?_, fun i => ?_, fun i => ?_⟩
  · rw [Slots.length_fit, Slots.length_fit, h.lengths]
  · exact (Slots.getD_fit seq [] st.sentences i).trans (h.text i)
  · exact (Slots.getD_fit seq false st.played i).trans (h.played i)

theorem addSentence (h : Tracks ss ps st) {e : LlmSentence} {st' : AssistantState}
    (hst' : st.addSentence e = some st') : Tracks (ss ++ [e]) ps st' := by
  let named : AssistantState := { st with lang := if st.lang = [] then e.lang else st.lang }
  have hnamed : Tracks ss ps named := ⟨h.lengths, h.text, h.played⟩
  have hgrown := hnamed.grow e.seq
  simp only [AssistantState.addSentence, Option.ite_none_right_eq_some, Option.some.injEq] at hst'
  obtain ⟨hroom, rfl⟩ := hst'
  rw [show AssistantState.fit _ _ named = _ from hnamed.fit_eq rfl hroom]
  refine ⟨?_, fun i => ?_, hgrown.played⟩
  · rw [List.length_set]
    exact hgrown.lengths
  · rw [textAt_concat, ← h.text i]
    exact Slots.getD_set_fit e.seq e.text [] st.sentences i

theorem markPlayed (h : Tracks ss ps st) {seq : SequenceNo} {st' : AssistantState}
    (hst' : st.markPlayed seq = some st') : Tracks ss (ps ++ [seq]) st' := by
  have hgrown := h.grow seq
  simp only [AssistantState.markPlayed, Option.ite_none_right_eq_some, Option.some.injEq] at hst'
  obtain ⟨hroom, rfl⟩ := hst'
  have hboth : (st.fit st.played.length seq).sentences.length =
      (st.fit st.played.length seq).played.length := by
    unfold AssistantState.fit AssistantState.resize
    split
    · simp
    · exact h.lengths.symm
  rw [h.fit_eq h.lengths (hboth ▸ hroom)]
  refine ⟨?_, hgrown.text, fun i => ?_⟩
  · rw [List.length_set]
    exact hgrown.lengths
  · rw [Slots.getD_set_fit, h.played i]
    by_cases hi : seq = i
    · simp [hi]
    · simp [hi, Ne.symm hi]

/-- The sentence persisted for a position is the one announced for it, unless it is empty or
the turn was cancelled before it was played. -/
theorem persisted_eq (h : Tracks ss ps st) (hdistinct : (ss.map (·.seq)).Nodup)
    (cancelled : Bool) (i : Nat) :
    st.persisted cancelled i =
      ((ss.filter fun s => s.text ≠ [] && (!cancelled || decide (s.seq ∈ ps))).find?
        (·.seq = i)).map (·.text) := by
  simp only [AssistantState.persisted, h.text, h.played, textAt_of_distinct hdistinct,
    Slots.find?_filter_of_distinct hdistinct]
  cases hfind : ss.find? (·.seq = i) with
  | none => simp
  | some s =>
      have hseq : s.seq = i := by simpa using List.find?_some hfind
      by_cases htext : s.text = []
      · simp [htext]
      cases cancelled with
      | false => simp [htext]
      | true => by_cases hp : i ∈ ps <;> simp [htext, hseq, hp]

/-- What is persisted: the texts in the order of their positions, and of a cancelled turn only
those that were played. -/
theorem persistedTexts_eq (h : Tracks ss ps st) (hdistinct : (ss.map (·.seq)).Nodup)
    (cancelled : Bool) :
    st.persistedTexts cancelled =
      orderedTexts
        (ss.filter fun s => s.text ≠ [] && (!cancelled || decide (s.seq ∈ ps))) := by
  let kept := ss.filter fun s => s.text ≠ [] && (!cancelled || decide (s.seq ∈ ps))
  have hkept : (kept.map (·.seq)).Nodup := hdistinct.sublist (List.filter_sublist.map _)
  have hbound : ∀ s ∈ kept, s.seq < st.sentences.length := by
    intro s hs
    obtain ⟨hmem, hkeep⟩ := List.mem_filter.mp hs
    have hne : s.text ≠ [] := of_decide_eq_true (Bool.and_eq_true_iff.mp hkeep).1
    by_contra hge
    have htext := h.text s.seq
    rw [List.getD_eq_default _ _ (Nat.not_lt.mp hge), textAt_of_distinct hdistinct] at htext
    cases hf : ss.find? (·.seq = s.seq) with
    | none => simpa using List.find?_eq_none.mp hf s hmem
    | some x =>
        have hseq : x.seq = s.seq := by simpa using List.find?_some hf
        have hx : x = s :=
          List.inj_on_of_nodup_map hdistinct (List.mem_of_find?_eq_some hf) hmem hseq
        rw [hf, hx] at htext
        exact hne htext.symm
  have hslots := Slots.mergeSort_eq_occupied LlmSentence.seq hkept hbound
  rw [orderedTexts, hslots, AssistantState.persistedTexts, Slots.occupied, Slots.occupied,
    List.map_filterMap]
  congr 1
  funext i
  exact h.persisted_eq hdistinct cancelled i

/-- Without empty sentences: all of them, or those of a cancelled turn that were played. -/
theorem persistedTexts (h : Tracks ss ps st) (hdistinct : (ss.map (·.seq)).Nodup)
    (hne : ∀ s ∈ ss, s.text ≠ []) (cancelled : Bool) :
    st.persistedTexts cancelled =
      orderedTexts (ss.filter fun s => !cancelled || decide (s.seq ∈ ps)) := by
  rw [h.persistedTexts_eq hdistinct cancelled]
  congr 1
  exact List.filter_congr fun s hs => by simp [hne s hs]

end Tracks

namespace TurnWriter

/-! ## Events of other turns -/

/-- The assistant rows posted for turn `t`. -/
def assistantRows (t : TurnId) (w : TurnWriter) : List InsertTurnJob :=
  (w.posted.filter fun p => p.turn = t && p.job.role = .assistant).map (·.job)

/-- The start of turn `t`. -/
def IsStart (t : TurnId) : Event → Prop
  | .llmStarted e => e.turn = t
  | _ => False

/-- A sentence of turn `t`. -/
def IsSentence (t : TurnId) : Event → Prop
  | .llmSentence e => e.turn = t
  | _ => False

/-- The end of turn `t`. -/
def IsFinish (t : TurnId) : Event → Prop
  | .llmFinished e => e.turn = t
  | _ => False

/-- An event is a sentence of turn `t`, the end of a playback of it, or neither. -/
theorem sentence_or_playback (t : TurnId) (now : UnixMs) (e : Event) :
    (∃ s, s.turn = t ∧ e = .llmSentence s) ∨ (∃ p, p.turn = t ∧ e = .playbackFinished p) ∨
      (¬ IsSentence t e ∧ sentencesIn t [(now, e)] = [] ∧ playedIn t [(now, e)] = []) := by
  cases e with
  | llmSentence s =>
      by_cases h : s.turn = t
      · exact .inl ⟨s, h, rfl⟩
      · exact .inr (.inr ⟨h, by simp [sentencesIn, h], rfl⟩)
  | playbackFinished p =>
      by_cases h : p.turn = t
      · exact .inr (.inl ⟨p, h, rfl⟩)
      · exact .inr (.inr ⟨id, rfl, by simp [playedIn, h]⟩)
  | _ => exact .inr (.inr ⟨id, rfl, rfl⟩)

/-- What the writer keeps of turn `t` stays as it is. -/
structure SameTurn (t : TurnId) (w w' : TurnWriter) : Prop where
  session : w'.session = w.session
  inFlight : w'.inFlight t = w.inFlight t
  rows : w'.assistantRows t = w.assistantRows t

theorem SameTurn.refl (t : TurnId) (w : TurnWriter) : SameTurn t w w := ⟨rfl, rfl, rfl⟩

theorem SameTurn.trans {t : TurnId} {w w' w'' : TurnWriter} (h : SameTurn t w w')
    (h' : SameTurn t w' w'') : SameTurn t w w'' :=
  ⟨h'.session.trans h.session, h'.inFlight.trans h.inFlight, h'.rows.trans h.rows⟩

theorem setInFlight_sameTurn {t u : TurnId} (h : u ≠ t) (st : Option AssistantState)
    (w : TurnWriter) : SameTurn t w { w with inFlight := Function.update w.inFlight u st } :=
  ⟨rfl, Function.update_of_ne (Ne.symm h) _ _, rfl⟩

theorem post_sameTurn {t : TurnId} {p : PostedTurn} (h : p.turn ≠ t ∨ p.job.role = .user)
    (w : TurnWriter) : SameTurn t w (w.post p.turn p.job) := by
  refine ⟨rfl, rfl, ?_⟩
  have hskip : (decide (p.turn = t) && decide (p.job.role = .assistant)) = false := by
    rcases h with h | h
    · simp [h]
    · simp [h]
  simp [assistantRows, post, List.filter_append, hskip]

theorem handleFinished_sameTurn {t : TurnId} (now : UnixMs) {e : LlmFinished} (w : TurnWriter)
    (h : e.turn ≠ t) : SameTurn t w (w.handleFinished now e) := by
  simp only [handleFinished]
  split
  · exact .refl t w
  next st hst =>
    have herased := setInFlight_sameTurn h none w
    split
    · exact herased
    · split
      · exact herased
      · exact herased.trans (post_sameTurn (p := ⟨e.turn, _⟩) (.inl h) _)

/-- An event that is no start, sentence, end of playback or end of turn `t`. -/
theorem onEvent_sameTurn {t : TurnId} {now : UnixMs} {e : Event} {w w' : TurnWriter}
    (hw' : w.onEvent now e = some w') (hstart : ¬ IsStart t e) (hsentence : ¬ IsSentence t e)
    (hfinish : ¬ IsFinish t e) (hplayed : playedIn t [(now, e)] = []) : SameTurn t w w' := by
  cases e with
  | finalTranscript e =>
      cases hw'
      simp only [handleFinal]
      split
      · exact .refl t w
      · split
        · exact .refl t w
        · exact post_sameTurn (p := ⟨e.turn, _⟩) (.inr rfl) w
  | llmStarted e =>
      cases hw'
      simp only [handleStarted]
      split
      · exact .refl t w
      · exact setInFlight_sameTurn hstart _ w
  | llmSentence e =>
      obtain ⟨st, -, rfl⟩ := Option.map_eq_some_iff.mp hw'
      exact setInFlight_sameTurn hsentence _ w
  | llmFinished e =>
      cases hw'
      exact handleFinished_sameTurn now w hfinish
  | playbackFinished e =>
      have hturn : e.turn ≠ t := by
        intro ht
        simp [playedIn, ht] at hplayed
      simp only [onEvent, handlePlaybackFinished] at hw'
      split at hw'
      next =>
        cases hw'
        exact .refl t w
      next =>
        obtain ⟨st, -, rfl⟩ := Option.map_eq_some_iff.mp hw'
        exact setInFlight_sameTurn hturn _ w
  | _ =>
      cases hw'
      exact .refl t w

/-! ## Lists of events -/

theorem onEvents_cons (w : TurnWriter) (e : UnixMs × Event) (es : List (UnixMs × Event)) :
    w.onEvents (e :: es) = (w.onEvent e.1 e.2).bind fun v => v.onEvents es := rfl

theorem onEvents_append (w : TurnWriter) (as bs : List (UnixMs × Event)) :
    w.onEvents (as ++ bs) = (w.onEvents as).bind fun v => v.onEvents bs := List.foldlM_append

/-! ## A turn from its start to its end -/

/-- A turn that is not in flight is only brought into flight by its start or a sentence. -/
theorem onEvents_of_idle {t : TurnId} {w w' : TurnWriter} {es : List (UnixMs × Event)}
    (hw' : w.onEvents es = some w') (hidle : w.inFlight t = none)
    (hes : ∀ e ∈ es, ¬ IsStart t e.2 ∧ ¬ IsSentence t e.2) : SameTurn t w w' := by
  induction es generalizing w with
  | nil =>
      cases hw'
      exact .refl t _
  | cons e es ih =>
      obtain ⟨now, e⟩ := e
      obtain ⟨hstart, hsentence⟩ := hes _ List.mem_cons_self
      rw [onEvents_cons] at hw'
      obtain ⟨v, hv, hw'⟩ := Option.bind_eq_some_iff.mp hw'
      have hone : SameTurn t w v := by
        by_cases hfinish : IsFinish t e
        · cases e with
          | llmFinished e =>
              have hturn : e.turn = t := hfinish
              cases hv
              simp only [handleFinished, hturn, hidle]
              exact .refl t w
          | _ => exact hfinish.elim
        rcases sentence_or_playback t now e with ⟨s, hturn, rfl⟩ | ⟨p, hturn, rfl⟩ | hother
        · exact absurd hturn hsentence
        · simp only [onEvent, handlePlaybackFinished, hturn, hidle, Option.some.injEq] at hv
          exact hv ▸ .refl t w
        · exact onEvent_sameTurn hv hstart hsentence hfinish hother.2.2
      exact hone.trans (ih hw' (hone.inFlight.trans hidle)
        (fun x hx => hes x (List.mem_cons_of_mem _ hx)))

/-- A turn in flight collects its sentences and ends of playback. -/
theorem onEvents_of_tracks {t : TurnId} {w w' : TurnWriter} {es : List (UnixMs × Event)}
    {ss : List LlmSentence} {ps : List SequenceNo} {st : AssistantState}
    (hw' : w.onEvents es = some w') (hst : w.inFlight t = some st) (htracks : Tracks ss ps st)
    (hes : ∀ e ∈ es, ¬ IsStart t e.2 ∧ ¬ IsFinish t e.2) :
    ∃ st', w'.inFlight t = some st' ∧
      Tracks (ss ++ sentencesIn t es) (ps ++ playedIn t es) st' ∧
      w'.session = w.session ∧ w'.assistantRows t = w.assistantRows t := by
  induction es generalizing w ss ps st with
  | nil =>
      cases hw'
      exact ⟨st, hst, by simpa [sentencesIn, playedIn] using htracks, rfl, rfl⟩
  | cons e es ih =>
      obtain ⟨now, e⟩ := e
      obtain ⟨hstart, hfinish⟩ := hes _ List.mem_cons_self
      have hrest : ∀ x ∈ es, ¬ IsStart t x.2 ∧ ¬ IsFinish t x.2 :=
        fun x hx => hes x (List.mem_cons_of_mem _ hx)
      have hss : sentencesIn t ((now, e) :: es) = sentencesIn t [(now, e)] ++ sentencesIn t es := by
        rw [← List.singleton_append]
        exact List.filterMap_append
      have hps : playedIn t ((now, e) :: es) = playedIn t [(now, e)] ++ playedIn t es := by
        rw [← List.singleton_append]
        exact List.filterMap_append
      rw [onEvents_cons] at hw'
      obtain ⟨v, hv, hw'⟩ := Option.bind_eq_some_iff.mp hw'
      have hone : ∃ st', v.inFlight t = some st' ∧
          Tracks (ss ++ sentencesIn t [(now, e)]) (ps ++ playedIn t [(now, e)]) st' ∧
          v.session = w.session ∧ v.assistantRows t = w.assistantRows t := by
        rcases sentence_or_playback t now e with ⟨s, hturn, rfl⟩ | ⟨p, hturn, rfl⟩ | hother
        · simp only [onEvent, handleSentence, hturn, hst, Option.getD_some,
            Option.map_eq_some_iff] at hv
          obtain ⟨st', hst', rfl⟩ := hv
          refine ⟨st', Function.update_self .., ?_, rfl, rfl⟩
          simpa [sentencesIn, playedIn, hturn] using htracks.addSentence hst'
        · simp only [onEvent, handlePlaybackFinished, hturn, hst, Option.map_eq_some_iff] at hv
          obtain ⟨st', hst', rfl⟩ := hv
          refine ⟨st', Function.update_self .., ?_, rfl, rfl⟩
          simpa [sentencesIn, playedIn, hturn] using htracks.markPlayed hst'
        · obtain ⟨hsentence, hnone, hplayed⟩ := hother
          have hsame := onEvent_sameTurn hv hstart hsentence hfinish hplayed
          refine ⟨st, hsame.inFlight.trans hst, ?_, hsame.session, hsame.rows⟩
          simpa [hnone, hplayed] using htracks
      obtain ⟨st₁, hst₁, htracks₁, hsession₁, hrows₁⟩ := hone
      obtain ⟨st', hst', htracks', hsession', hrows'⟩ := ih hw' hst₁ htracks₁ hrest
      refine ⟨st', hst', ?_, hsession'.trans hsession₁, hrows'.trans hrows₁⟩
      rw [hss, hps, ← List.append_assoc, ← List.append_assoc]
      exact htracks'

/-- A turn from its start to its end, with `es` in between. -/
def replyEvents (t : TurnId) (startedAt : UnixMs) (es : List (UnixMs × Event))
    (finishedAt : UnixMs) (cancelled : Bool) (tokensGenerated : Nat) : List (UnixMs × Event) :=
  (startedAt, .llmStarted { turn := t }) :: es ++
    [(finishedAt, .llmFinished { turn := t, cancelled := cancelled,
                                 tokensGenerated := tokensGenerated })]

/-- Its end posts one row, or none if it was cancelled unheard or no session is bound. -/
theorem onEvents_reply {t : TurnId} {w w' : TurnWriter} {es : List (UnixMs × Event)}
    {startedAt finishedAt : UnixMs} {cancelled : Bool} {tokensGenerated : Nat}
    (hw' : w.onEvents (replyEvents t startedAt es finishedAt cancelled tokensGenerated) = some w')
    (hidle : w.inFlight t = none) (hes : ∀ e ∈ es, ¬ IsStart t e.2 ∧ ¬ IsFinish t e.2) :
    ∃ st, Tracks (sentencesIn t es) (playedIn t es) st ∧ w'.inFlight t = none ∧
      w'.assistantRows t = w.assistantRows t ++
        if w.session = 0 ∨ (cancelled = true ∧ st.persistedTexts cancelled = []) then []
        else [assistantJob w.session finishedAt cancelled st] := by
  let w₁ : TurnWriter := { w with
    inFlight := Function.update w.inFlight t (some { startedAt := startedAt }) }
  have hstarted : w.onEvent startedAt (.llmStarted { turn := t }) = some w₁ := by
    simp only [onEvent, handleStarted, hidle, w₁]
  have hst₁ : w₁.inFlight t = some { startedAt := startedAt } := Function.update_self ..
  rw [replyEvents, onEvents_append, onEvents_cons, hstarted, Option.bind_some] at hw'
  obtain ⟨w₂, hw₂, hfinished⟩ := Option.bind_eq_some_iff.mp hw'
  obtain ⟨st, hst₂, htracks, hsession₂, hrows₂⟩ :=
    onEvents_of_tracks hw₂ hst₁ (Tracks.initial startedAt) hes
  let finish : LlmFinished :=
    { turn := t, cancelled := cancelled, tokensGenerated := tokensGenerated }
  have hlast : w₂.handleFinished finishedAt finish = w' := Option.some.inj hfinished
  change w₂.session = w.session at hsession₂
  change w₂.assistantRows t = w.assistantRows t at hrows₂
  refine ⟨st, htracks, ?_⟩
  rw [← hlast, ← hrows₂, ← hsession₂]
  simp only [handleFinished, finish, hst₂]
  split
  next hsid =>
    rw [if_pos (.inl hsid), List.append_nil]
    exact ⟨Function.update_self .., rfl⟩
  next hsid =>
    split
    next hunheard =>
      rw [if_pos (.inr hunheard), List.append_nil]
      exact ⟨Function.update_self .., rfl⟩
    next hheard =>
      rw [if_neg (not_or.mpr ⟨hsid, hheard⟩)]
      refine ⟨Function.update_self .., ?_⟩
      simp only [assistantRows, post, List.filter_append, List.map_append]
      congr 1
      simp [assistantJob]

/-- What the writer handles around one turn: its start, its end, and what comes before,
between and after them. -/
structure ReplyOrder where
  turn : TurnId
  before : List (UnixMs × Event)
  startedAt : UnixMs
  during : List (UnixMs × Event)
  finishedAt : UnixMs
  cancelled : Bool
  tokensGenerated : Nat
  after : List (UnixMs × Event)

namespace ReplyOrder

def events (o : ReplyOrder) : List (UnixMs × Event) :=
  o.before ++ (o.startedAt, .llmStarted { turn := o.turn }) :: o.during ++
    (o.finishedAt, .llmFinished { turn := o.turn, cancelled := o.cancelled,
                                  tokensGenerated := o.tokensGenerated }) :: o.after

/-- The turn is started once and ended once, and all its sentences come in between. -/
structure OneReply (o : ReplyOrder) : Prop where
  before : ∀ e ∈ o.before, ¬ IsStart o.turn e.2 ∧ ¬ IsSentence o.turn e.2
  during : ∀ e ∈ o.during, ¬ IsStart o.turn e.2 ∧ ¬ IsFinish o.turn e.2
  after : ∀ e ∈ o.after, ¬ IsStart o.turn e.2 ∧ ¬ IsSentence o.turn e.2

/-- The sentences of the turn. -/
def sentences (o : ReplyOrder) : List LlmSentence := sentencesIn o.turn o.during

end ReplyOrder

/-- The writer posts one row for the turn, or none if it was cancelled unheard. -/
theorem assistantRows_onEvents {o : ReplyOrder} (ho : o.OneReply) {sid : SessionId}
    (hsid : sid ≠ 0) {w' : TurnWriter}
    (hw' : ({ session := sid } : TurnWriter).onEvents o.events = some w') :
    ∃ st, Tracks o.sentences (playedIn o.turn o.during) st ∧
      w'.assistantRows o.turn =
        if o.cancelled = true ∧ st.persistedTexts o.cancelled = [] then []
        else [assistantJob sid o.finishedAt o.cancelled st] := by
  have hsplit : o.events = o.before ++ (replyEvents o.turn o.startedAt o.during o.finishedAt
      o.cancelled o.tokensGenerated ++ o.after) := by
    simp [ReplyOrder.events, replyEvents]
  rw [hsplit, onEvents_append] at hw'
  obtain ⟨w₁, hw₁, hrest⟩ := Option.bind_eq_some_iff.mp hw'
  rw [onEvents_append] at hrest
  obtain ⟨w₂, hw₂, hlast⟩ := Option.bind_eq_some_iff.mp hrest
  have hbefore := onEvents_of_idle (t := o.turn) hw₁ rfl ho.before
  have hsid₁ : w₁.session = sid := hbefore.session
  have hnone₁ : w₁.assistantRows o.turn = [] := hbefore.rows
  obtain ⟨st, htracks, hfinished, hrows⟩ := onEvents_reply hw₂ hbefore.inFlight ho.during
  refine ⟨st, htracks, ?_⟩
  rw [(onEvents_of_idle hlast hfinished ho.after).rows, hrows, hnone₁, hsid₁]
  simp only [hsid, false_or, List.nil_append]

/-! ## Room in the vectors -/

/-- The one position no vector is grown for. -/
def lastPosition : Nat := 2 ^ 32 - 1

theorem sizeFor_of_lt {seq : SequenceNo} (h : seq < lastPosition) : sizeFor seq = seq + 1 :=
  Nat.mod_eq_of_lt (Nat.add_lt_of_lt_sub h)

theorem sizeFor_le (seq : SequenceNo) : sizeFor seq ≤ lastPosition := by
  have := Nat.mod_lt (seq + 1) (show 0 < 2 ^ 32 by decide)
  rw [sizeFor, lastPosition]
  omega

/-- No vector is longer than the positions with room. -/
structure Small (st : AssistantState) : Prop where
  sentences : st.sentences.length ≤ lastPosition
  played : st.played.length ≤ lastPosition

theorem Small.fit {st : AssistantState} (h : Small st) (length : Nat) (seq : SequenceNo) :
    Small (st.fit length seq) := by
  unfold AssistantState.fit
  split
  · exact ⟨by simpa [AssistantState.resize] using sizeFor_le seq,
      by simpa [AssistantState.resize] using sizeFor_le seq⟩
  · exact h

theorem Small.addSentence {st st' : AssistantState} {e : LlmSentence} (h : Small st)
    (hst' : st.addSentence e = some st') : Small st' := by
  simp only [AssistantState.addSentence, Option.ite_none_right_eq_some, Option.some.injEq] at hst'
  obtain ⟨-, rfl⟩ := hst'
  let named : AssistantState := { st with lang := if st.lang = [] then e.lang else st.lang }
  have hnamed : Small named := ⟨h.sentences, h.played⟩
  have hfit := hnamed.fit named.sentences.length e.seq
  exact ⟨(List.length_set ..).trans_le hfit.sentences, hfit.played⟩

theorem Small.markPlayed {st st' : AssistantState} {seq : SequenceNo} (h : Small st)
    (hst' : st.markPlayed seq = some st') : Small st' := by
  simp only [AssistantState.markPlayed, Option.ite_none_right_eq_some, Option.some.injEq] at hst'
  obtain ⟨-, rfl⟩ := hst'
  have hfit := h.fit st.played.length seq
  exact ⟨hfit.sentences, (List.length_set ..).trans_le hfit.played⟩

theorem exists_addSentence {e : LlmSentence} (h : e.seq < lastPosition) (st : AssistantState) :
    ∃ st', st.addSentence e = some st' := by
  let named : AssistantState := { st with lang := if st.lang = [] then e.lang else st.lang }
  have hroom : e.seq < (named.fit named.sentences.length e.seq).sentences.length := by
    unfold AssistantState.fit
    split
    next =>
      rw [AssistantState.resize, Slots.length_resize, sizeFor_of_lt h]
      exact Nat.lt_succ_self _
    next hlong => exact Nat.not_le.mp hlong
  exact ⟨_, if_pos hroom⟩

theorem exists_markPlayed {seq : SequenceNo} (h : seq < lastPosition) (st : AssistantState) :
    ∃ st', st.markPlayed seq = some st' := by
  have hroom : seq < (st.fit st.played.length seq).played.length := by
    unfold AssistantState.fit
    split
    next =>
      rw [AssistantState.resize, Slots.length_resize, sizeFor_of_lt h]
      exact Nat.lt_succ_self _
    next hlong => exact Nat.not_le.mp hlong
  exact ⟨_, if_pos hroom⟩

/-- The last position is written past the end. -/
theorem Small.lt_of_addSentence {st st' : AssistantState} {e : LlmSentence} (h : Small st)
    (hst' : st.addSentence e = some st') : e.seq < lastPosition := by
  simp only [AssistantState.addSentence, Option.ite_none_right_eq_some] at hst'
  let named : AssistantState := { st with lang := if st.lang = [] then e.lang else st.lang }
  have hnamed : Small named := ⟨h.sentences, h.played⟩
  exact Nat.lt_of_lt_of_le hst'.1 (hnamed.fit _ _).sentences

theorem Small.lt_of_markPlayed {st st' : AssistantState} {seq : SequenceNo} (h : Small st)
    (hst' : st.markPlayed seq = some st') : seq < lastPosition := by
  simp only [AssistantState.markPlayed, Option.ite_none_right_eq_some] at hst'
  exact Nat.lt_of_lt_of_le hst'.1 (h.fit _ _).played

/-- The turn is in flight once the events are handled: it has started, or a sentence of it has
come, and it has not ended since. -/
def inFlightAfter (t : TurnId) (es : List (UnixMs × Event)) : Bool :=
  es.foldl (fun flying e => match e.2 with
    | .llmStarted s => flying || s.turn = t
    | .llmSentence s => flying || s.turn = t
    | .llmFinished f => flying && f.turn ≠ t
    | _ => flying) false

/-- Handled behind `before`, the event is written past the end of a vector. -/
def Overruns (before : List (UnixMs × Event)) : Event → Prop
  | .llmSentence s => lastPosition ≤ s.seq
  | .playbackFinished p => lastPosition ≤ p.seq ∧ inFlightAfter p.turn before = true
  | _ => False

/-- None of the events is written past the end of a vector. -/
def StaysInBounds (es : List (UnixMs × Event)) : Prop :=
  ∀ before e after, es = before ++ e :: after → ¬ Overruns before e.2

/-- The writer after the events: what is in flight, and how much of it there is. -/
structure Handled (es : List (UnixMs × Event)) (w : TurnWriter) : Prop where
  flying : ∀ t, (w.inFlight t).isSome = inFlightAfter t es
  small : ∀ t st, w.inFlight t = some st → Small st

theorem inFlightAfter_concat (t : TurnId) (es : List (UnixMs × Event)) (now : UnixMs) (e : Event) :
    inFlightAfter t (es ++ [(now, e)]) = match e with
      | .llmStarted s => inFlightAfter t es || s.turn = t
      | .llmSentence s => inFlightAfter t es || s.turn = t
      | .llmFinished f => inFlightAfter t es && f.turn ≠ t
      | _ => inFlightAfter t es := by
  simp only [inFlightAfter, List.foldl_append, List.foldl_cons, List.foldl_nil]

theorem handled_initial (sid : SessionId) : Handled [] { session := sid } :=
  ⟨fun _ => rfl, fun _ _ h => by cases h⟩

section
variable {es : List (UnixMs × Event)} {w w' : TurnWriter} {now : UnixMs} {e : Event}

/-- A turn's entry is replaced by a small one. -/
theorem Handled.update (h : Handled es w) {t : TurnId} {st : AssistantState} (hst : Small st)
    {es' : List (UnixMs × Event)}
    (hes' : ∀ u, inFlightAfter u es' = (inFlightAfter u es || decide (t = u))) :
    Handled es' { w with inFlight := Function.update w.inFlight t (some st) } := by
  refine ⟨fun u => ?_, fun u st' hst' => ?_⟩
  · rw [hes']
    by_cases hu : u = t
    · subst hu
      simp
    · simp [Function.update_of_ne hu, Ne.symm hu, h.flying u]
  · by_cases hu : u = t
    · subst hu
      simp only [Function.update_self, Option.some.injEq] at hst'
      exact hst' ▸ hst
    · simp only [Function.update_of_ne hu] at hst'
      exact h.small u st' hst'

theorem Handled.keep (h : Handled es w) (hsame : w'.inFlight = w.inFlight)
    {es' : List (UnixMs × Event)} (hes' : ∀ u, inFlightAfter u es' = inFlightAfter u es) :
    Handled es' w' :=
  ⟨fun u => by rw [hsame, hes', h.flying u], fun u => by rw [hsame]; exact h.small u⟩

theorem handleFinished_inFlight (now : UnixMs) (e : LlmFinished) (w : TurnWriter) :
    (w.handleFinished now e).inFlight = Function.update w.inFlight e.turn none := by
  simp only [handleFinished]
  split
  next hnone => rw [← hnone, Function.update_eq_self]
  next =>
    split
    · rfl
    · split <;> rfl

theorem Handled.onEvent (h : Handled es w) (hw' : w.onEvent now e = some w') :
    Handled (es ++ [(now, e)]) w' := by
  have hsmall : ∀ t, Small ((w.inFlight t).getD {}) := by
    intro t
    cases hst : w.inFlight t with
    | none => exact ⟨Nat.zero_le _, Nat.zero_le _⟩
    | some st => exact h.small t st hst
  cases e with
  | finalTranscript e =>
      cases hw'
      refine h.keep ?_ fun u => by rw [inFlightAfter_concat]
      simp only [handleFinal]
      split
      · rfl
      · split <;> rfl
  | llmStarted e =>
      cases hw'
      simp only [handleStarted]
      split
      next st hst =>
        refine h.keep rfl fun u => ?_
        rw [inFlightAfter_concat]
        by_cases hu : e.turn = u
        · subst hu
          simp [← h.flying e.turn, hst]
        · simp [hu]
      next => exact h.update ⟨Nat.zero_le _, Nat.zero_le _⟩ fun u => inFlightAfter_concat ..
  | llmSentence e =>
      obtain ⟨st, hst, rfl⟩ := Option.map_eq_some_iff.mp hw'
      exact h.update ((hsmall e.turn).addSentence hst) fun u => inFlightAfter_concat ..
  | llmFinished e =>
      cases hw'
      refine ⟨fun u => ?_, fun u st hst => ?_⟩
      · rw [handleFinished_inFlight, inFlightAfter_concat]
        by_cases hu : u = e.turn
        · simp [hu]
        · simp [Function.update_of_ne hu, Ne.symm hu, h.flying u]
      · rw [handleFinished_inFlight] at hst
        by_cases hu : u = e.turn
        · simp [hu] at hst
        · rw [Function.update_of_ne hu] at hst
          exact h.small u st hst
  | playbackFinished e =>
      simp only [TurnWriter.onEvent, handlePlaybackFinished] at hw'
      split at hw'
      next =>
        cases hw'
        exact h.keep rfl fun u => inFlightAfter_concat ..
      next st hst =>
        obtain ⟨st', hst', rfl⟩ := Option.map_eq_some_iff.mp hw'
        refine h.update ((h.small e.turn st hst).markPlayed hst') fun u => ?_
        rw [inFlightAfter_concat]
        by_cases hu : e.turn = u
        · subst hu
          simp [← h.flying e.turn, hst]
        · simp [hu]
  | _ =>
      cases hw'
      exact h.keep rfl fun u => inFlightAfter_concat ..

/-- An event is handled unless it is written past the end of a vector. -/
theorem Handled.exists_onEvent_iff (h : Handled es w) (now : UnixMs) (e : Event) :
    (∃ w', w.onEvent now e = some w') ↔ ¬ Overruns es e := by
  cases e with
  | llmSentence e =>
      have hsmall : Small ((w.inFlight e.turn).getD {}) := by
        cases hst : w.inFlight e.turn with
        | none => exact ⟨Nat.zero_le _, Nat.zero_le _⟩
        | some st => exact h.small e.turn st hst
      simp only [TurnWriter.onEvent, handleSentence, Option.map_eq_some_iff, Overruns, not_le]
      constructor
      · rintro ⟨_, st, hst, -⟩
        exact hsmall.lt_of_addSentence hst
      · intro hlt
        obtain ⟨st, hst⟩ := exists_addSentence hlt ((w.inFlight e.turn).getD {})
        exact ⟨_, st, hst, rfl⟩
  | playbackFinished e =>
      have hflying := h.flying e.turn
      simp only [TurnWriter.onEvent, handlePlaybackFinished, Overruns, ← hflying]
      cases hst : w.inFlight e.turn with
      | none => simp
      | some st =>
          simp only [Option.map_eq_some_iff, Option.isSome_some, and_true, not_le]
          constructor
          · rintro ⟨_, st', hst', -⟩
            exact (h.small e.turn st hst).lt_of_markPlayed hst'
          · intro hlt
            obtain ⟨st', hst'⟩ := exists_markPlayed hlt st
            exact ⟨_, st', hst', rfl⟩
  | _ => exact iff_of_true ⟨_, rfl⟩ id

end

theorem staysInBounds_cons {pre es : List (UnixMs × Event)} {e : UnixMs × Event} :
    (∀ before x after, e :: es = before ++ x :: after → ¬ Overruns (pre ++ before) x.2) ↔
      ¬ Overruns pre e.2 ∧
        ∀ before x after, es = before ++ x :: after → ¬ Overruns (pre ++ [e] ++ before) x.2 := by
  constructor
  · intro h
    refine ⟨by simpa using h [] e es rfl, fun before x after hes => ?_⟩
    rw [List.append_assoc]
    exact h (e :: before) x after (by rw [hes, List.cons_append])
  · rintro ⟨hfirst, hrest⟩ before x after hes
    cases before with
    | nil =>
        obtain ⟨rfl, rfl⟩ := List.cons.inj hes
        rwa [List.append_nil]
    | cons y before =>
        obtain ⟨rfl, rfl⟩ := List.cons.inj hes
        have htail := hrest before x after rfl
        rwa [List.append_assoc] at htail

/-- The writer handles a list of events exactly if none is written past the end of a vector. -/
theorem Handled.exists_onEvents_iff {pre es : List (UnixMs × Event)} {w : TurnWriter}
    (h : Handled pre w) :
    (∃ w', w.onEvents es = some w') ↔
      ∀ before e after, es = before ++ e :: after → ¬ Overruns (pre ++ before) e.2 := by
  induction es generalizing pre w with
  | nil => exact iff_of_true ⟨w, rfl⟩ fun before e after hes => by simp at hes
  | cons e es ih =>
      obtain ⟨now, e⟩ := e
      rw [staysInBounds_cons, ← h.exists_onEvent_iff now e, onEvents_cons]
      constructor
      · rintro ⟨w', hw'⟩
        obtain ⟨v, hv, hrest⟩ := Option.bind_eq_some_iff.mp hw'
        exact ⟨⟨v, hv⟩, (ih (h.onEvent hv)).mp ⟨w', hrest⟩⟩
      · rintro ⟨⟨v, hv⟩, hrest⟩
        obtain ⟨w', hw'⟩ := (ih (h.onEvent hv)).mpr hrest
        exact ⟨w', by rw [hv]; exact hw'⟩

theorem exists_onEvents_iff (sid : SessionId) (es : List (UnixMs × Event)) :
    (∃ w', ({ session := sid } : TurnWriter).onEvents es = some w') ↔ StaysInBounds es :=
  (handled_initial sid).exists_onEvents_iff

/-- The position that an event has the writer write to. -/
def position? : Event → Option SequenceNo
  | .llmSentence e => some e.seq
  | .playbackFinished e => some e.seq
  | _ => none

/-- An event no vector is too short for. -/
def InReach (e : Event) : Prop := ∀ seq ∈ position? e, seq < lastPosition

instance : DecidablePred InReach := fun e =>
  inferInstanceAs (Decidable (∀ seq ∈ position? e, seq < lastPosition))

theorem staysInBounds_of_inReach {es : List (UnixMs × Event)} (h : ∀ e ∈ es, InReach e.2) :
    StaysInBounds es := by
  rintro before ⟨now, e⟩ after rfl
  have hreach := h (now, e) (by simp)
  cases e with
  | llmSentence e => exact Nat.not_le.mpr (hreach e.seq rfl)
  | playbackFinished e => exact fun hover => Nat.not_le.mpr (hreach e.seq rfl) hover.1
  | _ => exact id

/-- Whatever the writer holds. -/
theorem exists_onEvents_of_inReach {es : List (UnixMs × Event)} (h : ∀ e ∈ es, InReach e.2)
    (w : TurnWriter) : ∃ w', w.onEvents es = some w' := by
  induction es generalizing w with
  | nil => exact ⟨w, rfl⟩
  | cons e es ih =>
      obtain ⟨now, e⟩ := e
      obtain ⟨hreach, hrest⟩ := List.forall_mem_cons.mp h
      have hone : ∃ v, w.onEvent now e = some v := by
        cases e with
        | llmSentence e =>
            obtain ⟨st, hst⟩ := exists_addSentence (hreach e.seq rfl) ((w.inFlight e.turn).getD {})
            exact ⟨_, Option.map_eq_some_iff.mpr ⟨st, hst, rfl⟩⟩
        | playbackFinished e =>
            simp only [onEvent, handlePlaybackFinished]
            split
            next => exact ⟨w, rfl⟩
            next st _ =>
              obtain ⟨st', hst'⟩ := exists_markPlayed (hreach e.seq rfl) st
              exact ⟨_, Option.map_eq_some_iff.mpr ⟨st', hst', rfl⟩⟩
        | _ => exact ⟨_, rfl⟩
      obtain ⟨v, hv⟩ := hone
      obtain ⟨w', hw'⟩ := ih hrest v
      exact ⟨w', by rw [onEvents_cons, hv]; exact hw'⟩

end TurnWriter

end Acva.Dialogue

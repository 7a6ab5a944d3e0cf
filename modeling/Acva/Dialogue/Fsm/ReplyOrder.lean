import Acva.Dialogue.Fsm.Calculus
import Mathlib.Data.List.Count
import Mathlib.Data.List.Infix

/-! # A well-formed reply

Two streams of events make up the reply of a turn: its sentences, which the end of
the language model's stream closes, and the playback of each of them. However they
interleave, with events that are none of theirs anywhere between, the turn is
completed by the last of them, unless so many sentences are still to be played when
the stream ends that the two 32-bit counts agree before the last of them is.
-/

namespace Acva.Dialogue

inductive ReplyMark
  | sentence
  | finished
  | played
  | noise
deriving DecidableEq, Repr

/-- What an event is to the reply of a turn; none for an event that such a reply excludes. -/
def replyMark (t : TurnId) : Event → Option ReplyMark
  | .llmSentence e => if e.turn = t then some .sentence else none
  | .llmFinished e => if e.turn = t then some .finished else none
  | .playbackFinished e => if e.turn = t then some .played else none
  | .userInterrupted _ => none
  | _ => some .noise

/-- The events of the language model's stream. -/
def ReplyMark.ofStream (m : ReplyMark) : Bool := m = .sentence || m = .finished

/-- `n` sentences, each played, and nothing after the last of these events. -/
structure WellFormedReply (n : Nat) (ms : List ReplyMark) : Prop where
  stream : ms.filter ReplyMark.ofStream = List.replicate n .sentence ++ [.finished]
  played : ms.count .played = n
  /-- The k-th playback comes after the k-th sentence. -/
  order : ∀ front, front <+: ms → front.count .played ≤ front.count .sentence
  last : ∀ m, ms.getLast? = some m → m ≠ .noise

theorem wellFormedReply_iff {n : Nat} {ms : List ReplyMark} :
    WellFormedReply n ms ↔
      ms.filter ReplyMark.ofStream = List.replicate n .sentence ++ [.finished] ∧
        ms.count .played = n ∧
        (∀ front ∈ ms.inits, front.count .played ≤ front.count .sentence) ∧
        ∀ m ∈ ms.getLast?, m ≠ .noise := by
  constructor
  · rintro ⟨stream, played, order, last⟩
    exact ⟨stream, played, fun front hf => order front ((List.mem_inits front ms).mp hf), last⟩
  · rintro ⟨stream, played, order, last⟩
    exact ⟨stream, played, fun front hf => order front ((List.mem_inits front ms).mpr hf), last⟩

instance (n : Nat) (ms : List ReplyMark) : Decidable (WellFormedReply n ms) :=
  decidable_of_iff _ wellFormedReply_iff.symm

/-- A well-formed reply of a turn, as the machine gets it. -/
def IsReply (t : TurnId) (n : Nat) (es : List Event) : Prop :=
  ∃ ms, es.map (replyMark t) = ms.map some ∧ WellFormedReply n ms

/-- The playbacks of a turn that come after the end of its stream. -/
def playedLate (t : TurnId) (es : List Event) : Nat :=
  ((es.map (replyMark t)).dropWhile (· ≠ some .finished)).count (some .played)

/-- The playbacks that come after the end of the stream, among what is left of a reply. -/
def late (finished : Bool) (ms : List ReplyMark) : Nat :=
  (if finished = true then ms else ms.dropWhile (· ≠ .finished)).count .played

theorem late_cons_of_ne {m : ReplyMark} {ms : List ReplyMark} (finished : Bool)
    (hm : m ≠ .finished) (hplayed : finished = true → m ≠ .played) :
    late finished (m :: ms) = late finished ms := by
  unfold late
  cases finished with
  | true =>
      rw [if_pos rfl, if_pos rfl]
      exact List.count_cons_of_ne (hplayed rfl)
  | false =>
      rw [if_neg Bool.false_ne_true, if_neg Bool.false_ne_true,
        List.dropWhile_cons_of_pos (by simpa using hm)]

theorem late_finished_cons (ms : List ReplyMark) :
    late false (.finished :: ms) = late true ms := by
  unfold late
  rw [if_neg Bool.false_ne_true, if_pos rfl, List.dropWhile_cons_of_neg (by simp)]
  exact List.count_cons_of_ne (by decide)

/-- What is left of a reply after `received` sentences, `played` of them played. -/
structure RestOfReply (n received played : Nat) (finished : Bool) (ms : List ReplyMark) :
    Prop where
  stream : ms.filter ReplyMark.ofStream =
    if finished = true then [] else List.replicate (n - received) .sentence ++ [.finished]
  bound : received ≤ n
  whole : finished = true → received = n
  plays : played + ms.count .played = n
  order : ∀ front, front <+: ms → played + front.count .played ≤ received + front.count .sentence
  last : ∀ m, ms.getLast? = some m → m ≠ .noise

theorem WellFormedReply.rest {n : Nat} {ms : List ReplyMark} (h : WellFormedReply n ms) :
    RestOfReply n 0 0 false ms where
  stream := by simpa using h.stream
  bound := Nat.zero_le n
  whole := fun hf => by cases hf
  plays := by rw [Nat.zero_add]; exact h.played
  order := fun front hfront => by simpa using h.order front hfront
  last := h.last

namespace RestOfReply

variable {n received played : Nat} {finished : Bool} {m : ReplyMark} {ms : List ReplyMark}

theorem last_tail (h : RestOfReply n received played finished (m :: ms)) :
    ∀ m, ms.getLast? = some m → m ≠ .noise := by
  intro m' hm'
  apply h.last
  cases ms with
  | nil => cases hm'
  | cons x xs => rw [List.getLast?_cons_cons]; exact hm'

/-- With nothing left of the two streams there is nothing left at all. -/
theorem eq_nil (h : RestOfReply n received played true ms) (hplayed : played = n) : ms = [] := by
  cases hlast : ms.getLast? with
  | none => exact List.getLast?_eq_none_iff.mp hlast
  | some m =>
      have hin : m ∈ ms := List.mem_of_getLast? hlast
      have hcount : ms.count .played = 0 := by
        have := h.plays
        omega
      have hstream : ms.filter ReplyMark.ofStream = [] := h.stream
      have hnot := List.filter_eq_nil_iff.mp hstream m hin
      exfalso
      cases m with
      | sentence => exact hnot rfl
      | finished => exact hnot rfl
      | played => exact List.count_eq_zero.mp hcount hin
      | noise => exact h.last .noise hlast rfl

theorem order_tail (h : RestOfReply n received played finished (m :: ms))
    {front : List ReplyMark} (hfront : front <+: ms) :
    played + (m :: front).count .played ≤ received + (m :: front).count .sentence :=
  h.order (m :: front) (List.cons_prefix_cons.mpr ⟨rfl, hfront⟩)

/-- The stream goes on with a sentence, or with its end if no sentence is left. -/
theorem stream_cons (h : RestOfReply n received played finished (m :: ms))
    (hm : m.ofStream = true) :
    finished = false ∧
      ((m = .finished ∧ received = n ∧ ms.filter ReplyMark.ofStream = []) ∨
        (m = .sentence ∧ received + 1 ≤ n ∧ ms.filter ReplyMark.ofStream =
          List.replicate (n - (received + 1)) .sentence ++ [.finished])) := by
  have hbound := h.bound
  have hstream := h.stream
  rw [List.filter_cons_of_pos hm] at hstream
  cases finished with
  | true => cases hstream
  | false =>
      rw [if_neg Bool.false_ne_true] at hstream
      refine ⟨rfl, ?_⟩
      cases hleft : n - received with
      | zero =>
          rw [hleft, List.replicate_zero, List.nil_append, List.cons.injEq] at hstream
          exact .inl ⟨hstream.1, by omega, hstream.2⟩
      | succ k =>
          rw [hleft, List.replicate_succ, List.cons_append, List.cons.injEq] at hstream
          rw [show n - (received + 1) = k by omega]
          exact .inr ⟨hstream.1, by omega, hstream.2⟩

theorem sentence (h : RestOfReply n received played finished (.sentence :: ms)) :
    finished = false ∧ RestOfReply n (received + 1) played false ms := by
  obtain ⟨rfl, ⟨hother, -⟩ | ⟨-, hbound, hstream⟩⟩ := h.stream_cons rfl
  · cases hother
  · refine ⟨rfl, ⟨hstream, hbound, (fun hf => by cases hf), ?_, fun front hfront => ?_,
      h.last_tail⟩⟩
    · have hplays := h.plays
      rwa [List.count_cons_of_ne (by decide)] at hplays
    · have horder := h.order_tail hfront
      rw [List.count_cons_self, List.count_cons_of_ne (by decide)] at horder
      omega

theorem finish (h : RestOfReply n received played finished (.finished :: ms)) :
    finished = false ∧ received = n ∧ RestOfReply n received played true ms := by
  obtain ⟨rfl, ⟨-, hreceived, hstream⟩ | ⟨hother, -⟩⟩ := h.stream_cons rfl
  · refine ⟨rfl, hreceived, ⟨hstream, h.bound, fun _ => hreceived, ?_, fun front hfront => ?_,
      h.last_tail⟩⟩
    · have hplays := h.plays
      rwa [List.count_cons_of_ne (by decide)] at hplays
    · have horder := h.order_tail hfront
      rwa [List.count_cons_of_ne (by decide), List.count_cons_of_ne (by decide)] at horder
  · cases hother

theorem play (h : RestOfReply n received played finished (.played :: ms)) :
    played + 1 ≤ received ∧ RestOfReply n received (played + 1) finished ms := by
  refine ⟨?_, ⟨h.stream, h.bound, h.whole, ?_, fun front hfront => ?_, h.last_tail⟩⟩
  · have horder := h.order_tail List.nil_prefix
    simpa using horder
  · have hplays := h.plays
    rw [List.count_cons_self] at hplays
    omega
  · have horder := h.order_tail hfront
    rw [List.count_cons_self, List.count_cons_of_ne (by decide)] at horder
    omega

theorem skip (h : RestOfReply n received played finished (.noise :: ms)) :
    ms ≠ [] ∧ RestOfReply n received played finished ms := by
  refine ⟨fun hnil => ?_, ⟨h.stream, h.bound, h.whole, ?_, fun front hfront => ?_, h.last_tail⟩⟩
  · subst hnil
    exact h.last .noise rfl rfl
  · have hplays := h.plays
    rwa [List.count_cons_of_ne (by decide)] at hplays
  · have horder := h.order_tail hfront
    rwa [List.count_cons_of_ne (by decide), List.count_cons_of_ne (by decide)] at horder

/-- Where the counts agree after the end of the stream, either nothing is left or too much. -/
theorem late_lt_iff (h : RestOfReply n received played true ms)
    (hagree : played % 2 ^ 32 = received % 2 ^ 32) : late true ms < 2 ^ 32 ↔ ms = [] := by
  have hplays := h.plays
  have hwhole := h.whole rfl
  change ms.count .played < 2 ^ 32 ↔ ms = []
  constructor
  · intro hfew
    exact h.eq_nil (by omega)
  · rintro rfl
    exact Nat.two_pow_pos 32

/-- A playback does not decide whether too much is left. -/
theorem late_play (h : RestOfReply n received played finished (.played :: ms))
    (hopen : ¬ (finished = true ∧ played % 2 ^ 32 = received % 2 ^ 32)) :
    late finished (.played :: ms) < 2 ^ 32 ↔ late finished ms < 2 ^ 32 := by
  cases finished with
  | false => rw [late_cons_of_ne false (by decide) (fun hf => by cases hf)]
  | true =>
      have hplays := h.plays
      have hwhole := h.whole rfl
      rw [List.count_cons_self] at hplays
      show (ReplyMark.played :: ms).count .played < 2 ^ 32 ↔ ms.count .played < 2 ^ 32
      rw [List.count_cons_self]
      have hagree : ¬ played % 2 ^ 32 = received % 2 ^ 32 := fun hc => hopen ⟨rfl, hc⟩
      omega

end RestOfReply

theorem playedLate_eq_late {t : TurnId} {es : List Event} {ms : List ReplyMark}
    (h : es.map (replyMark t) = ms.map some) : playedLate t es = late false ms := by
  have hinj : Function.Injective (some : ReplyMark → Option ReplyMark) := fun _ _ => Option.some.inj
  have hdrop : (ms.map some).dropWhile (· ≠ some ReplyMark.finished) =
      (ms.dropWhile (· ≠ .finished)).map some := by
    rw [List.dropWhile_map]
    congr 2
    funext m
    simp
  rw [playedLate, h, hdrop, List.count_map_of_injective _ _ hinj, late,
    if_neg Bool.false_ne_true]

namespace FsmHost

/-! ## The machine within a reply -/

/-- The machine in the turn `t` after part of the reply. -/
structure Midway (h : FsmHost) (t : TurnId) (received played : Nat) (finished : Bool)
    (completed : Nat) : Prop where
  state : h.fsm.state = if received = 0 then .thinking else .speaking
  turn : h.fsm.active.id = t
  sentencesReceived : h.fsm.sentencesReceived = UInt32.ofNat received
  sentencesPlayed : h.fsm.sentencesPlayed = UInt32.ofNat played
  finishedSeen : h.fsm.llmFinishedSeen = finished
  turnsCompleted : h.fsm.turnsCompleted = completed

/-- The turn is completed and the machine listens again. -/
structure Done (h : FsmHost) (completed : Nat) : Prop where
  state : h.fsm.state = .listening
  turnsCompleted : h.fsm.turnsCompleted = completed

variable {h : FsmHost} {t : TurnId} {received played completed : Nat} {finished : Bool}

theorem Midway.sentence (hm : Midway h t received played finished completed) (now : TimePoint)
    (e : LlmSentence) :
    Midway (h.onEvent now (.llmSentence e)) t (received + 1) played finished completed := by
  have hcount := add_one_of_eq hm.sentencesReceived
  simp only [onEvent, onFsm, Fsm.handleLlmSentence]
  by_cases hzero : received = 0
  · have hstate : h.fsm.state = .thinking := by rw [hm.state, if_pos hzero]
    rw [if_pos hstate]
    exact ⟨(if_neg (Nat.succ_ne_zero _)).symm, hm.turn, hcount, hm.sentencesPlayed,
      hm.finishedSeen, hm.turnsCompleted⟩
  · have hstate : h.fsm.state = .speaking := by rw [hm.state, if_neg hzero]
    rw [if_neg (by rw [hstate]; decide)]
    exact ⟨hstate.trans (if_neg (Nat.succ_ne_zero _)).symm, hm.turn, hcount, hm.sentencesPlayed,
      hm.finishedSeen, hm.turnsCompleted⟩

theorem Midway.finish (hm : Midway h t received played finished completed) (now : TimePoint)
    (e : LlmFinished) (hplayed : played ≤ received) :
    (played % 2 ^ 32 = received % 2 ^ 32 ∧
        Done (h.onEvent now (.llmFinished e)) (completed + 1)) ∨
      (¬ played % 2 ^ 32 = received % 2 ^ 32 ∧
        Midway (h.onEvent now (.llmFinished e)) t received played true completed) := by
  simp only [onEvent, onFsm, Fsm.handleLlmFinished]
  by_cases hzero : received = 0
  · have hstate : h.fsm.state = .thinking := by rw [hm.state, if_pos hzero]
    have hnone : h.fsm.sentencesReceived = 0 := by
      rw [hm.sentencesReceived, hzero]
      rfl
    rw [if_pos ⟨hstate, hnone⟩]
    exact .inl ⟨by omega, rfl, congrArg (· + 1) hm.turnsCompleted⟩
  · have hstate : h.fsm.state = .speaking := by rw [hm.state, if_neg hzero]
    have hcounts : h.fsm.sentencesPlayed = h.fsm.sentencesReceived ↔
        played % 2 ^ 32 = received % 2 ^ 32 := by
      rw [hm.sentencesPlayed, hm.sentencesReceived, ofNat_eq_ofNat_iff]
    rw [if_neg (by rw [hstate]; simp)]
    by_cases hagree : played % 2 ^ 32 = received % 2 ^ 32
    · rw [if_pos ⟨hstate, hcounts.mpr hagree⟩]
      exact .inl ⟨hagree, rfl, congrArg (· + 1) hm.turnsCompleted⟩
    · rw [if_neg fun hc => hagree (hcounts.mp hc.2)]
      exact .inr ⟨hagree, hm.state, hm.turn, hm.sentencesReceived, hm.sentencesPlayed, rfl,
        hm.turnsCompleted⟩

theorem Midway.play (hm : Midway h t received played finished completed) (now : TimePoint)
    {e : PlaybackFinished} (he : e.turn = t) (hplayed : played + 1 ≤ received) :
    (finished = true ∧ (played + 1) % 2 ^ 32 = received % 2 ^ 32 ∧
        Done (h.onEvent now (.playbackFinished e)) (completed + 1)) ∨
      (¬ (finished = true ∧ (played + 1) % 2 ^ 32 = received % 2 ^ 32) ∧
        Midway (h.onEvent now (.playbackFinished e)) t received (played + 1) finished
          completed) := by
  have hstate : h.fsm.state = .speaking := by
    rw [hm.state, if_neg (by omega)]
  have hcount := add_one_of_eq hm.sentencesPlayed
  have hcounts : h.fsm.sentencesPlayed + 1 = h.fsm.sentencesReceived ↔
      (played + 1) % 2 ^ 32 = received % 2 ^ 32 := by
    rw [hcount, hm.sentencesReceived, ofNat_eq_ofNat_iff]
  simp only [onEvent, onFsm, Fsm.handlePlaybackFinished]
  rw [if_neg (by rw [he, hm.turn]; simp)]
  by_cases hlast : finished = true ∧ (played + 1) % 2 ^ 32 = received % 2 ^ 32
  · rw [if_pos ⟨hstate, hm.finishedSeen.trans hlast.1, hcounts.mpr hlast.2⟩]
    exact .inl ⟨hlast.1, hlast.2, rfl, congrArg (· + 1) hm.turnsCompleted⟩
  · rw [if_neg fun hc => hlast ⟨hm.finishedSeen.symm.trans hc.2.1, hcounts.mp hc.2.2⟩]
    exact .inr ⟨hlast, hm.state, hm.turn, hm.sentencesReceived, hcount, hm.finishedSeen,
      hm.turnsCompleted⟩

/-- Within a reply an event that is no part of it does nothing. -/
theorem Midway.noise (hm : Midway h t received played finished completed) (now : TimePoint)
    {e : Event} (he : replyMark t e = some .noise) : h.onEvent now e = h := by
  have hbusy : h.fsm.state = .thinking ∨ h.fsm.state = .speaking := by
    rw [hm.state]
    by_cases hzero : received = 0
    · exact .inl (if_pos hzero)
    · exact .inr (if_neg hzero)
  cases e with
  | speechStarted e =>
      apply onEvent_speechStarted_of_not_startsTurn
      rcases hbusy with hs | hs <;> simp [Fsm.startsTurn, hs]
  | speechEnded e =>
      have hstate : h.fsm.state ≠ .userSpeaking := by
        rcases hbusy with hs | hs <;> rw [hs] <;> decide
      simp only [onEvent, onFsm, Fsm.handleSpeechEnded, if_neg hstate]
  | finalTranscript e =>
      have hstate : h.fsm.state ≠ .transcribing := by
        rcases hbusy with hs | hs <;> rw [hs] <;> decide
      simp only [onEvent, onFsm, Fsm.handleFinalTranscript, if_neg hstate]
  | llmSentence e =>
      simp only [replyMark] at he
      split at he <;> cases he
  | llmFinished e =>
      simp only [replyMark] at he
      split at he <;> cases he
  | playbackFinished e =>
      simp only [replyMark] at he
      split at he <;> cases he
  | userInterrupted e => cases he
  | _ => rfl

/-- A host after every event of a list, and after the events before each of them. -/
structure CompletesWithLast (h : FsmHost) (es : List Timed) (completed : Nat) : Prop where
  done : Done (h.onEvents es) (completed + 1)
  before : ∀ front, front <+: es → front ≠ es → (h.onEvents front).fsm.turnsCompleted = completed

theorem completesWithLast_cons {e : Timed} {es : List Timed}
    (hcompleted : h.fsm.turnsCompleted = completed) :
    CompletesWithLast h (e :: es) completed ↔
      CompletesWithLast (h.onEvent e.1 e.2) es completed := by
  constructor
  · rintro ⟨hdone, hbefore⟩
    refine ⟨hdone, fun front hfront hne => ?_⟩
    exact hbefore (e :: front) (List.cons_prefix_cons.mpr ⟨rfl, hfront⟩) (by simpa using hne)
  · rintro ⟨hdone, hbefore⟩
    refine ⟨hdone, fun front hfront hne => ?_⟩
    cases front with
    | nil => exact hcompleted
    | cons x front =>
        obtain ⟨rfl, htail⟩ := List.cons_prefix_cons.mp hfront
        exact hbefore front htail fun he => hne (by rw [he])

/-- A turn that is completed may have no event left. -/
theorem Done.completesWithLast_iff {es : List Timed} (hdone : Done h (completed + 1)) :
    CompletesWithLast h es completed ↔ es = [] := by
  constructor
  · rintro ⟨-, hbefore⟩
    by_contra hne
    have hsame : h.fsm.turnsCompleted = completed := hbefore [] List.nil_prefix (Ne.symm hne)
    have hmore := hdone.turnsCompleted
    omega
  · rintro rfl
    refine ⟨hdone, fun front hfront hne => ?_⟩
    exact absurd (List.prefix_nil.mp hfront) hne

theorem replyMark_eq_sentence {e : Event} (he : replyMark t e = some .sentence) :
    ∃ s : LlmSentence, e = .llmSentence s := by
  cases e with
  | llmSentence s => exact ⟨s, rfl⟩
  | llmFinished e => simp only [replyMark] at he; split at he <;> cases he
  | playbackFinished e => simp only [replyMark] at he; split at he <;> cases he
  | _ => cases he

theorem replyMark_eq_finished {e : Event} (he : replyMark t e = some .finished) :
    ∃ f : LlmFinished, e = .llmFinished f := by
  cases e with
  | llmFinished f => exact ⟨f, rfl⟩
  | llmSentence e => simp only [replyMark] at he; split at he <;> cases he
  | playbackFinished e => simp only [replyMark] at he; split at he <;> cases he
  | _ => cases he

theorem replyMark_eq_played {e : Event} (he : replyMark t e = some .played) :
    ∃ p : PlaybackFinished, e = .playbackFinished p ∧ p.turn = t := by
  cases e with
  | playbackFinished p =>
      simp only [replyMark] at he
      split at he
      next hturn => exact ⟨p, rfl, hturn⟩
      next => cases he
  | llmSentence e => simp only [replyMark] at he; split at he <;> cases he
  | llmFinished e => simp only [replyMark] at he; split at he <;> cases he
  | _ => cases he

/-- By induction on what is left of the reply. While the machine is midway, either the stream
has not ended or the counts differ. -/
theorem Midway.completes_iff {n : Nat} {ms : List ReplyMark} {es : List Timed}
    (hm : Midway h t received played finished completed)
    (hrest : RestOfReply n received played finished ms)
    (hmarks : es.map (fun e => replyMark t e.2) = ms.map some)
    (hopen : ¬ (finished = true ∧ played % 2 ^ 32 = received % 2 ^ 32)) :
    CompletesWithLast h es completed ↔ late finished ms < 2 ^ 32 := by
  induction es generalizing h ms received played finished with
  | nil =>
      exfalso
      have hms : ms = [] := List.map_eq_nil_iff.mp hmarks.symm
      subst hms
      cases finished with
      | true =>
          have hplays := hrest.plays
          rw [List.count_nil, Nat.add_zero] at hplays
          exact hopen ⟨rfl, by rw [hplays, hrest.whole rfl]⟩
      | false =>
          have hstream := hrest.stream
          simp at hstream
  | cons e es ih =>
      cases ms with
      | nil => cases hmarks
      | cons m ms =>
          simp only [List.map_cons, List.cons.injEq] at hmarks
          obtain ⟨hmark, hmarks⟩ := hmarks
          have hnil : es = [] ↔ ms = [] := by
            rw [← List.map_eq_nil_iff (f := fun e : Timed => replyMark t e.2), hmarks,
              List.map_eq_nil_iff]
          rw [completesWithLast_cons hm.turnsCompleted]
          cases m with
          | sentence =>
              obtain ⟨s, hs⟩ := replyMark_eq_sentence hmark
              obtain ⟨rfl, htail⟩ := hrest.sentence
              have hm' := hm.sentence e.1 s
              rw [← hs] at hm'
              rw [ih hm' htail hmarks (by simp),
                late_cons_of_ne false (by decide) (fun hf => by cases hf)]
          | finished =>
              obtain ⟨f, hf⟩ := replyMark_eq_finished hmark
              obtain ⟨rfl, hreceived, htail⟩ := hrest.finish
              have hle : played ≤ received := by
                have := htail.plays
                omega
              rw [late_finished_cons]
              rcases hm.finish e.1 f hle with ⟨hagree, hdone⟩ | ⟨hdiffer, hm'⟩
              · rw [← hf] at hdone
                rw [hdone.completesWithLast_iff, hnil, htail.late_lt_iff hagree]
              · rw [← hf] at hm'
                exact ih hm' htail hmarks fun hc => hdiffer hc.2
          | played =>
              obtain ⟨p, hp, hturn⟩ := replyMark_eq_played hmark
              obtain ⟨hle, htail⟩ := hrest.play
              rw [hrest.late_play hopen]
              rcases hm.play e.1 hturn hle with ⟨rfl, hagree, hdone⟩ | ⟨hnot, hm'⟩
              · rw [← hp] at hdone
                rw [hdone.completesWithLast_iff, hnil, htail.late_lt_iff hagree]
              · rw [← hp] at hm'
                exact ih hm' htail hmarks hnot
          | noise =>
              obtain ⟨-, htail⟩ := hrest.skip
              have hsame := hm.noise e.1 hmark
              rw [hsame, ih hm htail hmarks hopen,
                late_cons_of_ne finished (by decide) (fun _ => by decide)]

/-- The user's utterance: its start, which mints the turn, its end and its transcript. -/
def utterance (s : TimePoint × SpeechStarted) (e : TimePoint × SpeechEnded)
    (f : TimePoint × FinalTranscript) : List Timed :=
  [(s.1, .speechStarted s.2), (e.1, .speechEnded e.2), (f.1, .finalTranscript f.2)]

theorem utterance_midway (hl : h.fsm.state = .listening) (s : TimePoint × SpeechStarted)
    (e : TimePoint × SpeechEnded) (f : TimePoint × FinalTranscript) :
    Midway (h.onEvents (utterance s e f)) h.turns.next 0 0 false h.fsm.turnsCompleted := by
  have hstarts : h.fsm.startsTurn = true := by simp [Fsm.startsTurn, hl]
  simp only [utterance, onEvents_cons, onEvents_nil]
  rw [onEvent_speechStarted_of_startsTurn s.1 s.2 hstarts]
  exact ⟨rfl, rfl, rfl, rfl, rfl, rfl⟩

/-- From a listening machine, a well-formed turn is completed by its last event and by none
before it, exactly if fewer than `2 ^ 32` playbacks come after the end of its stream. -/
theorem reply_completesWithLast_iff {n : Nat} {es : List Timed} (hl : h.fsm.state = .listening)
    (s : TimePoint × SpeechStarted) (e : TimePoint × SpeechEnded)
    (f : TimePoint × FinalTranscript) (hreply : IsReply h.turns.next n (es.map Prod.snd)) :
    CompletesWithLast (h.onEvents (utterance s e f)) es h.fsm.turnsCompleted ↔
      playedLate h.turns.next (es.map Prod.snd) < 2 ^ 32 := by
  obtain ⟨ms, hmarks, hwf⟩ := hreply
  rw [playedLate_eq_late hmarks]
  rw [List.map_map] at hmarks
  exact (utterance_midway hl s e f).completes_iff hwf.rest hmarks (by simp)

/-- Two sentences; the second is played after the end of the stream, and speech is heard
meanwhile. -/
def twoSentences : List Timed :=
  [(4, .llmSentence { turn := 1 }), (5, .speechStarted {}),
    (6, .llmSentence { turn := 1, seq := 1 }), (7, .playbackFinished { turn := 1 }),
    (8, .llmFinished { turn := 1 }), (9, .speechEnded {}),
    (10, .playbackFinished { turn := 1, seq := 1 })]

theorem reply_completesWithLast_iff_twoSentences :
    CompletesWithLast (onEvents (start 0 {}) (utterance (1, {}) (2, {}) (3, {}))) twoSentences 0 :=
  (reply_completesWithLast_iff (n := 2) rfl (1, {}) (2, {}) (3, {})
    ⟨[.sentence, .noise, .sentence, .played, .finished, .noise, .played], rfl, by decide⟩).mpr
    (by decide)

/-! ## A reply that is played after its stream -/

/-- The reply of turn 1: its stream, and then the playback of its `n` sentences. -/
def playedAfterwards (n : Nat) : List Timed :=
  List.replicate n (4, .llmSentence { turn := 1 }) ++ (5, .llmFinished { turn := 1 }) ::
    List.replicate n (6, .playbackFinished { turn := 1 })

/-- What its events are to the reply. -/
def streamThenPlayed (n : Nat) : List ReplyMark :=
  List.replicate n .sentence ++ .finished :: List.replicate n .played

theorem playedAfterwards_marks (n : Nat) :
    (playedAfterwards n).map (fun e => replyMark 1 e.2) = (streamThenPlayed n).map some := by
  simp [playedAfterwards, streamThenPlayed, replyMark]

theorem wellFormedReply_streamThenPlayed (n : Nat) : WellFormedReply n (streamThenPlayed n) where
  stream := by simp [streamThenPlayed, ReplyMark.ofStream]
  played := by simp [streamThenPlayed, List.count_replicate]
  order := by
    intro front hfront
    have hsentences : List.replicate n ReplyMark.sentence <+: streamThenPlayed n :=
      List.prefix_append ..
    rcases List.prefix_or_prefix_of_prefix hfront hsentences with hwithin | hbeyond
    · have hnone := hwithin.sublist.count_le .played
      rw [List.count_replicate, if_neg (by decide)] at hnone
      omega
    · have hall := hbeyond.sublist.count_le .sentence
      have hplayed := hfront.sublist.count_le .played
      rw [List.count_replicate_self] at hall
      have hn : (streamThenPlayed n).count .played = n := by
        simp [streamThenPlayed, List.count_replicate]
      omega
  last := by
    rintro m hm rfl
    have hin := List.mem_of_getLast? hm
    simp [streamThenPlayed] at hin

theorem late_streamThenPlayed (n : Nat) : late false (streamThenPlayed n) = n := by
  have hdrop : (streamThenPlayed n).dropWhile (· ≠ .finished) =
      .finished :: List.replicate n .played := by
    rw [streamThenPlayed, List.dropWhile_append_of_pos (by simp)]
    exact List.dropWhile_cons_of_neg (by simp)
  rw [late, if_neg Bool.false_ne_true, hdrop, List.count_cons_of_ne (by decide),
    List.count_replicate_self]

/-- With `2 ^ 32` sentences that are played once the stream has ended, the end of the stream
completes the turn. -/
theorem playedAfterwards_completesEarly :
    Reachable (start 0 {}) ∧ (start 0 {}).fsm.state = .listening ∧
      IsReply 1 (2 ^ 32) ((playedAfterwards (2 ^ 32)).map Prod.snd) ∧
      ¬ CompletesWithLast (onEvents (start 0 {}) (utterance (1, {}) (2, {}) (3, {})))
        (playedAfterwards (2 ^ 32)) 0 := by
  have hmarks := playedAfterwards_marks (2 ^ 32)
  have hwf := wellFormedReply_streamThenPlayed (2 ^ 32)
  refine ⟨.start 0 .init rfl, rfl, ⟨_, ?_, hwf⟩, ?_⟩
  · rw [List.map_map]
    exact hmarks
  · have hmidway : Midway (onEvents (start 0 {}) (utterance (1, {}) (2, {}) (3, {}))) 1 0 0 false 0 :=
      utterance_midway rfl (1, {}) (2, {}) (3, {})
    rw [hmidway.completes_iff hwf.rest hmarks (by simp), late_streamThenPlayed]
    exact Nat.lt_irrefl _

end FsmHost

end Acva.Dialogue

import Acva.Dialogue.BargeIn
import Acva.Dialogue.Fsm.Calculus

/-! # The utterance that interrupts a reply

A barge-in starts an utterance while the machine is in `Speaking`. The machine
handles the `SpeechStarted` first and the detector's `UserInterrupted` after it,
so the interruption lands in `Listening` with the utterance already open. The
machine keeps no note of that: the utterance is followed only when one more
`SpeechStarted` arrives before it ends.
-/

namespace Acva.Dialogue

open FsmHost

/-- The events of one barge-in in the order the machine handles them, with other
events in the gaps. -/
structure BargeInOrder where
  speechStarted : TimePoint × SpeechStarted
  beforeInterrupt : List Timed
  interrupt : TimePoint × UserInterrupted
  beforeEnd : List Timed
  speechEnded : TimePoint × SpeechEnded
  beforeTranscript : List Timed
  transcript : TimePoint × FinalTranscript

/-- The host while turn 1 speaks its first sentence. -/
def speakingReply : FsmHost :=
  (FsmHost.start 0 {}).onEvents
    [(1, .speechStarted {}), (2, .speechEnded {}), (3, .finalTranscript {}),
      (4, .llmSentence { turn := 1 })]

theorem speakingReply_reachable : Reachable speakingReply :=
  (Reachable.start 0 .init rfl).events _

/-- An event of a gap: not itself the end or the transcript of an utterance. -/
def Interleaved (e : Timed) : Prop :=
  e.2.kind ≠ .speechEnded ∧ e.2.kind ≠ .finalTranscript

/-- Whether the events leave an utterance open: the last start or interruption among
them is a start. -/
def opensUtterance (opened : Bool) (es : List Timed) : Bool :=
  es.foldl (fun o e => match e.2.kind with
    | .speechStarted => true
    | .userInterrupted => false
    | _ => o) opened

namespace BargeInOrder

/-- The gaps hold no second end or transcript of an utterance. -/
def GapsInterleaved (o : BargeInOrder) : Prop :=
  (∀ e ∈ o.beforeInterrupt, Interleaved e) ∧ (∀ e ∈ o.beforeEnd, Interleaved e) ∧
    ∀ e ∈ o.beforeTranscript, Interleaved e

/-! ## The hosts along the order -/

def afterInterrupt (o : BargeInOrder) (h : FsmHost) : FsmHost :=
  ((h.onEvent o.speechStarted.1 (.speechStarted o.speechStarted.2)).onEvents
    o.beforeInterrupt).onEvent o.interrupt.1 (.userInterrupted o.interrupt.2)

def atSpeechEnded (o : BargeInOrder) (h : FsmHost) : FsmHost :=
  (o.afterInterrupt h).onEvents o.beforeEnd

def afterSpeechEnded (o : BargeInOrder) (h : FsmHost) : FsmHost :=
  (o.atSpeechEnded h).onEvent o.speechEnded.1 (.speechEnded o.speechEnded.2)

def afterTranscript (o : BargeInOrder) (h : FsmHost) : FsmHost :=
  ((o.afterSpeechEnded h).onEvents o.beforeTranscript).onEvent o.transcript.1
    (.finalTranscript o.transcript.2)

/-- The utterance drives the machine through `UserSpeaking` and `Transcribing` to
`Thinking`, under a turn minted after the one that was active in `h`. -/
structure Follows (o : BargeInOrder) (h : FsmHost) : Prop where
  userSpeaking : (o.atSpeechEnded h).fsm.state = .userSpeaking
  transcribing : (o.afterSpeechEnded h).fsm.state = .transcribing
  thinking : (o.afterTranscript h).fsm.state = .thinking
  fresh : h.fsm.active.id < (o.afterTranscript h).fsm.active.id

end BargeInOrder

/-! ## Gaps -/

/-- The machine after a gap in which no utterance ends: it waits for speech or hears it,
and speech heard since `turn` belongs to a later turn. -/
structure AwaitsSpeech (turn : TurnId) (opened : Bool) (h : FsmHost) : Prop where
  state : h.fsm.state = if opened then .userSpeaking else .listening
  next_gt : turn < h.turns.next
  fresh : opened = true → turn < h.fsm.active.id

theorem AwaitsSpeech.onEvent {turn : TurnId} {opened : Bool} {h : FsmHost} {e : Timed}
    (ha : AwaitsSpeech turn opened h) (he : Interleaved e) :
    AwaitsSpeech turn (opensUtterance opened [e]) (h.onEvent e.1 e.2) := by
  obtain ⟨now, e⟩ := e
  have hnext : turn < (h.onEvent now e).turns.next := by
    have hmono := next_le_onEvents h [(now, e)]
    exact Nat.lt_of_lt_of_le ha.next_gt hmono
  by_cases hstart : e.kind = .speechStarted
  · -- a start opens the utterance in `Listening` and changes nothing in `UserSpeaking`
    have hopened : opensUtterance opened [(now, e)] = true := by
      simp [opensUtterance, hstart]
    rw [hopened]
    obtain ⟨s, rfl⟩ := Event.eq_speechStarted_of_kind hstart
    cases opened with
    | true =>
        have hstate : h.fsm.state = .userSpeaking := ha.state
        have hsame := onEvent_speechStarted_of_not_startsTurn (h := h) now s
          (by simp [Fsm.startsTurn, hstate])
        rw [hsame]
        exact ⟨hstate, ha.next_gt, ha.fresh⟩
    | false =>
        have hstate : h.fsm.state = .listening := ha.state
        have hbegun := onEvent_speechStarted_of_startsTurn (h := h) now s
          (by simp [Fsm.startsTurn, hstate])
        rw [hbegun] at hnext ⊢
        exact ⟨rfl, hnext, fun _ => ha.next_gt⟩
  by_cases hint : e.kind = .userInterrupted
  · have hclosed : opensUtterance opened [(now, e)] = false := by
      simp [opensUtterance, hint]
    rw [hclosed]
    obtain ⟨i, rfl⟩ := Event.eq_userInterrupted_of_kind hint
    have hidle : h.fsm.state ≠ .idle := by
      rw [ha.state]
      cases opened <;> decide
    exact ⟨Fsm.handleUserInterrupted_state now hidle, hnext, by simp⟩
  · -- every other event meets no edge out of `Listening` or `UserSpeaking`
    have hkept : opensUtterance opened [(now, e)] = opened := by
      simp only [opensUtterance, List.foldl_cons, List.foldl_nil]
    rw [hkept]
    have hstate : (h.onEvent now e).fsm.state = h.fsm.state := by
      refine onEvent_state_of_utterance now ?_ hstart he.1 he.2 hint
      cases opened with
      | true => exact .inr (.inl ha.state)
      | false => exact .inl ha.state
    rcases onEvent_turn_cases h now e with ⟨hid, _⟩ | ⟨hkind, _⟩
    · exact ⟨hstate.trans ha.state, hnext, fun ho => hid ▸ ha.fresh ho⟩
    · exact absurd hkind hstart

theorem AwaitsSpeech.onEvents {turn : TurnId} {opened : Bool} {h : FsmHost} {es : List Timed}
    (ha : AwaitsSpeech turn opened h) (hes : ∀ e ∈ es, Interleaved e) :
    AwaitsSpeech turn (opensUtterance opened es) (h.onEvents es) := by
  induction es generalizing opened h with
  | nil => exact ha
  | cons e es ih =>
      exact ih (ha.onEvent (hes e List.mem_cons_self))
        (fun x hx => hes x (List.mem_cons_of_mem e hx))

/-- A gap in `Transcribing` keeps the state and the turn unless it holds an interruption,
after which the machine is back to waiting for speech. -/
theorem transcribing_onEvents {turn : TurnId} {h : FsmHost} {es : List Timed}
    (hstate : h.fsm.state = .transcribing) (hnext : turn < h.turns.next)
    (hes : ∀ e ∈ es, Interleaved e) :
    (∀ e ∈ es, e.2.kind ≠ .userInterrupted) ∧ (h.onEvents es).fsm.state = .transcribing ∧
        (h.onEvents es).fsm.active.id = h.fsm.active.id ∨
      (∃ e ∈ es, e.2.kind = .userInterrupted) ∧
        ∃ opened, AwaitsSpeech turn opened (h.onEvents es) := by
  induction es generalizing h with
  | nil => exact .inl ⟨by simp, hstate, rfl⟩
  | cons e es ih =>
      obtain ⟨now, e⟩ := e
      have hgap : Interleaved (now, e) := hes _ List.mem_cons_self
      have hrest : ∀ x ∈ es, Interleaved x := fun x hx => hes x (List.mem_cons_of_mem _ hx)
      have hnext' : turn < (h.onEvent now e).turns.next :=
        Nat.lt_of_lt_of_le hnext (next_le_onEvents h [(now, e)])
      by_cases hint : e.kind = .userInterrupted
      · obtain ⟨i, rfl⟩ := Event.eq_userInterrupted_of_kind hint
        have hwaits : AwaitsSpeech turn false (h.onEvent now (.userInterrupted i)) :=
          ⟨Fsm.handleUserInterrupted_state now (by rw [hstate]; decide), hnext', by simp⟩
        exact .inr ⟨⟨_, List.mem_cons_self, hint⟩, _, hwaits.onEvents hrest⟩
      · have hstate' : (h.onEvent now e).fsm.state = .transcribing := by
          by_cases hstart : e.kind = .speechStarted
          · obtain ⟨s, rfl⟩ := Event.eq_speechStarted_of_kind hstart
            rw [onEvent_speechStarted_of_not_startsTurn now s (by simp [Fsm.startsTurn, hstate])]
            exact hstate
          · rw [onEvent_state_of_utterance now (.inr (.inr hstate)) hstart hgap.1 hgap.2 hint]
            exact hstate
        have hid : (h.onEvent now e).fsm.active.id = h.fsm.active.id := by
          rcases onEvent_turn_cases h now e with ⟨hid, _⟩ | ⟨_, hs, _⟩
          · exact hid
          · simp [Fsm.startsTurn, hstate] at hs
        rcases ih hstate' hnext' hrest with ⟨hnone, hst, hact⟩ | ⟨⟨x, hx, hk⟩, hwaits⟩
        · refine .inl ⟨?_, hst, hact.trans hid⟩
          simpa [hint] using hnone
        · exact .inr ⟨⟨x, List.mem_cons_of_mem _ hx, hk⟩, hwaits⟩

/-! ## The utterance -/

/-- From `Speaking`, the interrupting utterance is followed exactly when another
`SpeechStarted` reopens it after the last interruption before its end, and no further
interruption falls before its transcript. -/
theorem bargeIn_follows_iff {h : FsmHost} (hr : Reachable h) (hs : h.fsm.state = .speaking)
    (o : BargeInOrder) (hgaps : o.GapsInterleaved) :
    o.Follows h ↔ opensUtterance false o.beforeEnd = true ∧
      ∀ e ∈ o.beforeTranscript, e.2.kind ≠ .userInterrupted := by
  obtain ⟨_, hend, htranscript⟩ := hgaps
  have hinterrupted : AwaitsSpeech h.fsm.active.id false (o.afterInterrupt h) := by
    let before := (h.onEvent o.speechStarted.1 (.speechStarted o.speechStarted.2)).onEvents
      o.beforeInterrupt
    have hidle : before.fsm.state ≠ .idle := by
      have hone : (h.onEvent o.speechStarted.1 (.speechStarted o.speechStarted.2)).fsm.state ≠
          .idle := onEvent_ne_idle _ _ (by rw [hs]; decide)
      exact onEvents_ne_idle _ hone
    have hnext : h.turns.next ≤ (o.afterInterrupt h).turns.next := by
      have hall := next_le_onEvents h ((o.speechStarted.1, .speechStarted o.speechStarted.2) ::
        o.beforeInterrupt ++ [(o.interrupt.1, .userInterrupted o.interrupt.2)])
      simpa [BargeInOrder.afterInterrupt, onEvents_append] using hall
    exact ⟨Fsm.handleUserInterrupted_state _ hidle,
      Nat.lt_of_lt_of_le hr.inv.active_lt hnext, by simp⟩
  have hopen := hinterrupted.onEvents hend
  constructor
  · intro hf
    have hopened : opensUtterance false o.beforeEnd = true := by
      cases ho : opensUtterance false o.beforeEnd with
      | true => rfl
      | false =>
          have hstate := hopen.state
          rw [ho] at hstate
          exact absurd (hf.userSpeaking.symm.trans hstate) (by decide)
    refine ⟨hopened, ?_⟩
    have hnext : h.fsm.active.id < (o.afterSpeechEnded h).turns.next :=
      Nat.lt_of_lt_of_le hopen.next_gt
        (next_le_onEvents (o.atSpeechEnded h) [(o.speechEnded.1, .speechEnded o.speechEnded.2)])
    rcases transcribing_onEvents hf.transcribing hnext htranscript with
      ⟨hnone, _, _⟩ | ⟨_, opened, hwaits⟩
    · exact hnone
    · -- a transcript handled while waiting for speech does not lead to `Thinking`
      exfalso
      have hthinking := hf.thinking
      have hstate := hwaits.state
      simp only [BargeInOrder.afterTranscript, FsmHost.onEvent, FsmHost.onFsm,
        Fsm.handleFinalTranscript] at hthinking
      cases opened <;> simp_all
  · rintro ⟨hopened, hnone⟩
    have hspeaking : (o.atSpeechEnded h).fsm.state = .userSpeaking := by
      have hstate := hopen.state
      rwa [hopened] at hstate
    have hended : (o.afterSpeechEnded h).fsm.state = .transcribing := by
      simp [BargeInOrder.afterSpeechEnded, FsmHost.onEvent, FsmHost.onFsm, Fsm.handleSpeechEnded,
        hspeaking]
    have hfresh : h.fsm.active.id < (o.afterSpeechEnded h).fsm.active.id := by
      have hid : (o.afterSpeechEnded h).fsm.active.id = (o.atSpeechEnded h).fsm.active.id := by
        rcases onEvent_turn_cases (o.atSpeechEnded h) o.speechEnded.1
          (.speechEnded o.speechEnded.2) with ⟨hid, _⟩ | ⟨hk, _⟩
        · exact hid
        · cases hk
      rw [hid]
      exact hopen.fresh hopened
    have hnext : h.fsm.active.id < (o.afterSpeechEnded h).turns.next :=
      Nat.lt_of_lt_of_le hopen.next_gt
        (next_le_onEvents (o.atSpeechEnded h) [(o.speechEnded.1, .speechEnded o.speechEnded.2)])
    rcases transcribing_onEvents hended hnext htranscript with
      ⟨_, hst, hact⟩ | ⟨⟨x, hx, hk⟩, _⟩
    · refine ⟨hspeaking, hended, ?_, ?_⟩
      · simp [BargeInOrder.afterTranscript, FsmHost.onEvent, FsmHost.onFsm,
          Fsm.handleFinalTranscript, hst]
      · have hid : (o.afterTranscript h).fsm.active.id = (o.afterSpeechEnded h).fsm.active.id := by
          rcases onEvent_turn_cases ((o.afterSpeechEnded h).onEvents o.beforeTranscript)
            o.transcript.1 (.finalTranscript o.transcript.2) with ⟨hid, _⟩ | ⟨hk, _⟩
          · exact hid.trans hact
          · cases hk
        rw [hid]
        exact hfresh
    · exact absurd hk (hnone x hx)

/-- A user who talks over turn 1 in one breath: the interruption is what the detector
publishes for the machine it sees, and nothing falls between the four events. -/
def oneBreath : BargeInOrder where
  speechStarted := (300000004, {})
  beforeInterrupt := []
  interrupt := (300000005, { turn := 1, ts := 300000004 })
  beforeEnd := []
  speechEnded := (300000006, {})
  beforeTranscript := []
  transcript := (300000007, {})

/-- The same breath with a second onset after the interruption. -/
def secondOnset : BargeInOrder :=
  { oneBreath with beforeEnd := [(300000005, .speechStarted { turn := 1 })] }

theorem bargeIn_follows_iff_secondOnset :
    secondOnset.Follows speakingReply ↔ opensUtterance false secondOnset.beforeEnd = true ∧
      ∀ e ∈ secondOnset.beforeTranscript, e.2.kind ≠ .userInterrupted :=
  bargeIn_follows_iff speakingReply_reachable (by decide) secondOnset
    ⟨by simp [secondOnset, oneBreath], by simp [secondOnset, oneBreath, Interleaved, Event.kind],
      by simp [secondOnset, oneBreath]⟩

/-- The interrupting utterance is lost: its end and its transcript find the machine in
`Listening` and are ignored. -/
theorem oneBreath_lost :
    Reachable speakingReply ∧ speakingReply.fsm.state = .speaking ∧ oneBreath.GapsInterleaved ∧
      (({} : BargeInDetector).onSpeechStarted speakingReply.fsm.snapshot oneBreath.speechStarted.1
        (some { aecActive := true, erleMeets := true })).2 = some oneBreath.interrupt.2 ∧
      (oneBreath.afterTranscript speakingReply).fsm.state = .listening ∧
      ¬ oneBreath.Follows speakingReply := by
  refine ⟨speakingReply_reachable, by decide, ?_, by decide, by decide, fun hf => ?_⟩
  · simp [BargeInOrder.GapsInterleaved, oneBreath]
  · exact absurd hf.userSpeaking (by decide)

end Acva.Dialogue

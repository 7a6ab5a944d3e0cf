import Acva.Core.Runs
import Acva.Dialogue.Fsm.Calculus

/-! # Turn accounting

A ledger is kept beside the machine: the turns it has minted, the events since the
last one, and for each turn that has ended which counter moved. What the machine
knows of its turns at any time between two events is what the ledger says, except
that it counts the sentences played in 32 bits: an interruption that finds the count
come round to zero takes the turn for one of which nothing was heard.
-/

namespace Acva.Dialogue

open Acva.Runs

namespace Fsm

/-- A turn is going on. -/
def inTurn (s : Fsm) : Bool :=
  s.state = .userSpeaking || s.state = .transcribing || s.state = .thinking || s.state = .speaking

theorem startsTurn_inTurn {s : Fsm} (h : s.startsTurn = true) : s.inTurn = false := by
  unfold startsTurn at h
  unfold inTurn
  cases hs : s.state <;> simp [hs] at h ⊢

/-- The counters and what the outcome observer was told. -/
structure SameTally (s s' : Fsm) : Prop where
  completed : s'.turnsCompleted = s.turnsCompleted
  interrupted : s'.turnsInterrupted = s.turnsInterrupted
  discarded : s'.turnsDiscarded = s.turnsDiscarded
  observed : s'.outcomeCalls = s.outcomeCalls

end Fsm

/-- `byUser` says that an interruption ended the turn, and `heard` that playback of one of
its sentences had finished. -/
structure TurnRecord where
  turn : TurnId
  outcome : String
  byUser : Bool
  heard : Bool
deriving DecidableEq, Repr

structure Ledger where
  minted : List TurnId := []
  since : List Event := []
  ended : List TurnRecord := []
deriving DecidableEq, Repr

namespace Ledger

/-- How many of the turns ended with that outcome. -/
def count (outcome : String) (l : Ledger) : Nat := (l.ended.filter fun r => r.outcome = outcome).length

end Ledger

/-- Playback of a sentence of the turn has finished. -/
def playedOf (t : TurnId) : Event → Bool
  | .playbackFinished e => e.turn = t
  | _ => false

/-- What can happen to the host. Other components mint, too. -/
inductive HostAction
  | start (now : TimePoint)
  | event (now : TimePoint) (e : Event)
  | mint
deriving DecidableEq, Repr

namespace FsmHost

def step (h : FsmHost) : HostAction → Option FsmHost
  | .start now => if h.fsm.state = .idle then some (h.start now) else none
  | .event now e => some (h.onEvent now e)
  | .mint => some { h with turns := h.turns.mint.2 }

/-- A run goes through reachable hosts only. -/
theorem reachable_of_run {h h' : FsmHost} {acts : List HostAction} (hr : Reachable h)
    (hrun : run step h acts = some h') : Reachable h' := by
  refine run_preserves Reachable (fun h a h' hr hs => ?_) hrun hr
  cases a with
  | start now =>
      simp only [step] at hs
      split at hs
      next hidle =>
        cases hs
        exact .start now hr hidle
      next => cases hs
  | event now e =>
      cases hs
      exact .event now e hr
  | mint =>
      cases hs
      exact .mint hr

/-! ## The ledger -/

/-- The counter that an event moved. -/
def bumped (s s' : Fsm) : String :=
  if s.turnsCompleted < s'.turnsCompleted then "completed"
  else if s.turnsInterrupted < s'.turnsInterrupted then "interrupted"
  else if s.turnsDiscarded < s'.turnsDiscarded then "discarded"
  else ""

def noteEvent (now : TimePoint) (e : Event) (l : Ledger) (h : FsmHost) : Ledger :=
  let h' := h.onEvent now e
  if h'.turns ≠ h.turns then
    { l with minted := l.minted ++ [h.turns.next], since := [] }
  else
    let since := l.since ++ [e]
    if h.fsm.inTurn = true ∧ h'.fsm.inTurn = false then
      { l with
        since := since
        ended := l.ended ++ [{
          turn := h.fsm.active.id
          outcome := bumped h.fsm h'.fsm
          byUser := e.kind = .userInterrupted
          heard := l.since.any (playedOf h.fsm.active.id) }] }
    else { l with since := since }

def note (l : Ledger) (h : FsmHost) : HostAction → Ledger
  | .event now e => noteEvent now e l h
  | _ => l

/-- What agrees with the ledger in every run. -/
structure Books (h : FsmHost) (l : Ledger) : Prop where
  /-- A minted turn has ended, once, or it is the one going on. -/
  turns : l.minted = l.ended.map (·.turn) ++ if h.fsm.inTurn = true then [h.fsm.active.id] else []
  minted : l.minted.length = h.fsm.turnsCompleted + h.fsm.turnsInterrupted +
    h.fsm.turnsDiscarded + if h.fsm.inTurn = true then 1 else 0
  settled : h.fsm.Settled
  observed : h.fsm.outcomeCalls = l.ended.map (·.outcome)
  completed : h.fsm.turnsCompleted = l.count "completed"
  interrupted : h.fsm.turnsInterrupted = l.count "interrupted"
  discarded : h.fsm.turnsDiscarded = l.count "discarded"

/-- The turns that the user ended are counted by what was heard of them. -/
def CountedAsHeard (l : Ledger) : Prop :=
  ∀ r ∈ l.ended, r.byUser = true → r.outcome = if r.heard = true then "interrupted" else "discarded"

/-- The accounts of a host agree with the ledger. -/
structure Accounts (h : FsmHost) (l : Ledger) : Prop extends Books h l where
  byUser : CountedAsHeard l

/-- The playbacks of the active turn since it was minted. -/
def playbacks (h : FsmHost) (l : Ledger) : Nat := l.since.countP (playedOf h.fsm.active.id)

/-- An interruption of a turn does not come at a positive multiple of `2 ^ 32` playbacks. -/
def CountsPlayed (p : FsmHost × Ledger) : HostAction → Prop
  | .event _ e => e.kind = .userInterrupted → p.1.fsm.inTurn = true →
      playbacks p.1 p.2 % 2 ^ 32 = 0 → playbacks p.1 p.2 = 0
  | _ => True

instance (p : FsmHost × Ledger) (a : HostAction) : Decidable (CountsPlayed p a) := by
  cases a <;> simp only [CountsPlayed] <;> infer_instance

/-! ## One event -/

/-- What an event does to the turn, in the terms of the ledger. -/
inductive TurnStep (h : FsmHost) (e : Event) (h' : FsmHost) : Prop
  | begins (hkind : e.kind = .speechStarted) (hstarts : h.fsm.startsTurn = true)
      (hturn : h'.fsm.active.id = h.turns.next) (hin : h'.fsm.inTurn = true)
      (hplayed : h'.fsm.sentencesPlayed = 0) (htally : h.fsm.SameTally h'.fsm)
  | goesOn (hkind : ¬ (e.kind = .speechStarted ∧ h.fsm.startsTurn = true))
      (hin : h'.fsm.inTurn = h.fsm.inTurn) (htally : h.fsm.SameTally h'.fsm)
  | completes (hkind : e.kind ≠ .speechStarted ∧ e.kind ≠ .userInterrupted)
      (hin : h.fsm.inTurn = true) (hout : h'.fsm.inTurn = false)
      (hcompleted : h'.fsm.turnsCompleted = h.fsm.turnsCompleted + 1)
      (hinterrupted : h'.fsm.turnsInterrupted = h.fsm.turnsInterrupted)
      (hdiscarded : h'.fsm.turnsDiscarded = h.fsm.turnsDiscarded)
      (hobserved : h'.fsm.outcomeCalls = h.fsm.outcomeCalls ++ ["completed"])
  | interrupts (hkind : e.kind = .userInterrupted) (hheard : 1 ≤ h.fsm.sentencesPlayed)
      (hin : h.fsm.inTurn = true) (hout : h'.fsm.inTurn = false)
      (hcompleted : h'.fsm.turnsCompleted = h.fsm.turnsCompleted)
      (hinterrupted : h'.fsm.turnsInterrupted = h.fsm.turnsInterrupted + 1)
      (hdiscarded : h'.fsm.turnsDiscarded = h.fsm.turnsDiscarded)
      (hobserved : h'.fsm.outcomeCalls = h.fsm.outcomeCalls ++ ["interrupted"])
  | discards (hkind : e.kind = .userInterrupted) (hheard : ¬ 1 ≤ h.fsm.sentencesPlayed)
      (hin : h.fsm.inTurn = true) (hout : h'.fsm.inTurn = false)
      (hcompleted : h'.fsm.turnsCompleted = h.fsm.turnsCompleted)
      (hinterrupted : h'.fsm.turnsInterrupted = h.fsm.turnsInterrupted)
      (hdiscarded : h'.fsm.turnsDiscarded = h.fsm.turnsDiscarded + 1)
      (hobserved : h'.fsm.outcomeCalls = h.fsm.outcomeCalls ++ ["discarded"])

theorem onEvent_turnStep {h : FsmHost} (now : TimePoint) (e : Event) (hs : h.fsm.Settled) :
    TurnStep h e (h.onEvent now e) := by
  cases e with
  | speechStarted e =>
      cases hstarts : h.fsm.startsTurn with
      | true =>
          rw [onEvent_speechStarted_of_startsTurn now e hstarts]
          exact .begins rfl hstarts rfl rfl rfl ⟨rfl, rfl, rfl, rfl⟩
      | false =>
          rw [onEvent_speechStarted_of_not_startsTurn now e hstarts]
          refine .goesOn ?_ rfl ⟨rfl, rfl, rfl, rfl⟩
          simp [hstarts]
  | speechEnded e =>
      simp only [onEvent, onFsm, Fsm.handleSpeechEnded]
      split
      next hstate =>
        exact .goesOn (by simp [Event.kind]) (by simp [Fsm.inTurn, hstate]) ⟨rfl, rfl, rfl, rfl⟩
      next => exact .goesOn (by simp [Event.kind]) rfl ⟨rfl, rfl, rfl, rfl⟩
  | finalTranscript e =>
      simp only [onEvent, onFsm, Fsm.handleFinalTranscript]
      split
      next hstate =>
        exact .goesOn (by simp [Event.kind]) (by simp [Fsm.inTurn, hstate]) ⟨rfl, rfl, rfl, rfl⟩
      next => exact .goesOn (by simp [Event.kind]) rfl ⟨rfl, rfl, rfl, rfl⟩
  | llmSentence e =>
      simp only [onEvent, onFsm, Fsm.handleLlmSentence]
      split
      next hstate =>
        exact .goesOn (by simp [Event.kind]) (by simp [Fsm.inTurn, hstate]) ⟨rfl, rfl, rfl, rfl⟩
      next => exact .goesOn (by simp [Event.kind]) rfl ⟨rfl, rfl, rfl, rfl⟩
  | llmFinished e =>
      simp only [onEvent, onFsm, Fsm.handleLlmFinished]
      split
      next hstate =>
        exact .completes (by simp [Event.kind]) (by simp [Fsm.inTurn, hstate.1]) rfl rfl rfl rfl rfl
      next =>
        split
        next hstate =>
          exact .completes (by simp [Event.kind]) (by simp [Fsm.inTurn, hstate.1]) rfl rfl rfl rfl
            rfl
        next => exact .goesOn (by simp [Event.kind]) rfl ⟨rfl, rfl, rfl, rfl⟩
  | playbackFinished e =>
      simp only [onEvent, onFsm, Fsm.handlePlaybackFinished]
      split
      next => exact .goesOn (by simp [Event.kind]) rfl ⟨rfl, rfl, rfl, rfl⟩
      next =>
        split
        next hstate =>
          have hspeaking : h.fsm.state = .speaking := hstate.1
          exact .completes (by simp [Event.kind]) (by simp [Fsm.inTurn, hspeaking]) rfl rfl rfl rfl
            rfl
        next => exact .goesOn (by simp [Event.kind]) rfl ⟨rfl, rfl, rfl, rfl⟩
  | userInterrupted e =>
      simp only [onEvent, onFsm, Fsm.handleUserInterrupted]
      split
      next => exact .goesOn (by simp [Event.kind]) rfl ⟨rfl, rfl, rfl, rfl⟩
      next hbusy =>
        have hin : h.fsm.inTurn = true := by
          obtain ⟨hc, hi⟩ := hs
          unfold Fsm.inTurn
          cases hstate : h.fsm.state <;> simp_all
        split
        next hheard => exact .interrupts rfl hheard hin rfl rfl rfl rfl rfl
        next hunheard => exact .discards rfl hunheard hin rfl rfl rfl rfl rfl
  | _ => exact .goesOn (by simp [Event.kind]) rfl ⟨rfl, rfl, rfl, rfl⟩

/-- Only the begin of a turn moves the factory. -/
theorem onEvent_mints_iff {h : FsmHost} (now : TimePoint) (e : Event) :
    (h.onEvent now e).turns ≠ h.turns ↔ e.kind = .speechStarted ∧ h.fsm.startsTurn = true := by
  constructor
  · intro hmoved
    rcases onEvent_turn_cases h now e with ⟨-, hturns⟩ | ⟨hkind, hstarts, -⟩
    · exact absurd hturns hmoved
    · exact ⟨hkind, hstarts⟩
  · rintro ⟨hkind, hstarts⟩ hturns
    obtain ⟨e, rfl⟩ := Event.eq_speechStarted_of_kind hkind
    rw [onEvent_speechStarted_of_startsTurn now e hstarts] at hturns
    exact Nat.succ_ne_self h.turns.next (congrArg TurnFactory.next hturns)

/-- The played count moves with the playback events of the active turn. -/
theorem onEvent_sentencesPlayed {h : FsmHost} (now : TimePoint) (e : Event)
    (hkind : ¬ (e.kind = .speechStarted ∧ h.fsm.startsTurn = true)) :
    (h.onEvent now e).fsm.active.id = h.fsm.active.id ∧
      (h.onEvent now e).fsm.sentencesPlayed =
        if playedOf h.fsm.active.id e = true then h.fsm.sentencesPlayed + 1
        else h.fsm.sentencesPlayed := by
  refine ⟨?_, ?_⟩
  · rcases onEvent_turn_cases h now e with ⟨hid, -⟩ | ⟨hk, hstarts, -⟩
    · exact hid
    · exact absurd ⟨hk, hstarts⟩ hkind
  · cases e with
    | speechStarted e =>
        have hstarts : h.fsm.startsTurn = false := by
          simpa [Event.kind] using hkind
        rw [onEvent_speechStarted_of_not_startsTurn now e hstarts]
        simp [playedOf]
    | playbackFinished e =>
        simp only [onEvent, onFsm, Fsm.handlePlaybackFinished, playedOf, decide_eq_true_eq]
        split
        next => rfl
        next hmine =>
          rw [if_pos (not_not.mp hmine)]
          split <;> rfl
    | speechEnded e =>
        simp only [onEvent, onFsm, Fsm.handleSpeechEnded]
        split <;> rfl
    | finalTranscript e =>
        simp only [onEvent, onFsm, Fsm.handleFinalTranscript]
        split <;> rfl
    | llmSentence e =>
        simp only [onEvent, onFsm, Fsm.handleLlmSentence]
        split <;> rfl
    | llmFinished e =>
        simp only [onEvent, onFsm, Fsm.handleLlmFinished]
        split
        · rfl
        · split <;> rfl
    | userInterrupted e =>
        simp only [onEvent, onFsm, Fsm.handleUserInterrupted]
        split
        · rfl
        · split <;> rfl
    | _ => rfl

/-! ## The books stay in order -/

/-- The machine's count of played sentences is what the ledger has seen of them, as far as
32 bits go. -/
structure Booked (h : FsmHost) (l : Ledger) : Prop where
  books : Books h l
  played : h.fsm.sentencesPlayed = UInt32.ofNat (playbacks h l)

theorem booked_initial : Booked {} {} :=
  ⟨⟨rfl, rfl, ⟨by decide, by decide⟩, rfl, rfl, rfl, rfl⟩, rfl⟩

theorem countedAsHeard_initial : CountedAsHeard {} := fun _ hr => by cases hr

theorem count_append (outcome : String) (l : Ledger) (since : List Event) (r : TurnRecord) :
    Ledger.count outcome { l with since := since, ended := l.ended ++ [r] } =
      l.count outcome + if r.outcome = outcome then 1 else 0 := by
  unfold Ledger.count
  rw [List.filter_append, List.length_append]
  by_cases h : r.outcome = outcome
  · simp [h]
  · simp [h]

/-- Nothing of the turn has changed but the state, and no turn has begun. -/
theorem Booked.goesOn {h h' : FsmHost} {l : Ledger} {since : List Event} (hb : Booked h l)
    (hsettled : h'.fsm.Settled) (hin : h'.fsm.inTurn = h.fsm.inTurn)
    (hid : h'.fsm.active.id = h.fsm.active.id) (htally : h.fsm.SameTally h'.fsm)
    (hplayed : h'.fsm.sentencesPlayed =
      UInt32.ofNat (since.countP (playedOf h'.fsm.active.id))) :
    Booked h' { l with since := since } := by
  obtain ⟨hcompleted, hinterrupted, hdiscarded, hobserved⟩ := htally
  have ha := hb.books
  refine ⟨?_, hplayed⟩
  constructor
  · rw [hin, hid]
    exact ha.turns
  · rw [hin, hcompleted, hinterrupted, hdiscarded]
    exact ha.minted
  · exact hsettled
  · rw [hobserved]
    exact ha.observed
  · rw [hcompleted]
    exact ha.completed
  · rw [hinterrupted]
    exact ha.interrupted
  · rw [hdiscarded]
    exact ha.discarded

/-- The turn going on has ended and a counter has moved. -/
theorem Booked.ends {h h' : FsmHost} {l : Ledger} {since : List Event} {r : TurnRecord}
    (hb : Booked h l) (hsettled : h'.fsm.Settled) (hin : h.fsm.inTurn = true)
    (hout : h'.fsm.inTurn = false) (hturn : r.turn = h.fsm.active.id)
    (hcompleted : h'.fsm.turnsCompleted =
      h.fsm.turnsCompleted + if r.outcome = "completed" then 1 else 0)
    (hinterrupted : h'.fsm.turnsInterrupted =
      h.fsm.turnsInterrupted + if r.outcome = "interrupted" then 1 else 0)
    (hdiscarded : h'.fsm.turnsDiscarded =
      h.fsm.turnsDiscarded + if r.outcome = "discarded" then 1 else 0)
    (hone : (if r.outcome = "completed" then 1 else 0) +
      (if r.outcome = "interrupted" then 1 else 0) +
      (if r.outcome = "discarded" then 1 else 0) = 1)
    (hobserved : h'.fsm.outcomeCalls = h.fsm.outcomeCalls ++ [r.outcome])
    (hplayed : h'.fsm.sentencesPlayed =
      UInt32.ofNat (since.countP (playedOf h'.fsm.active.id))) :
    Booked h' { l with since := since, ended := l.ended ++ [r] } := by
  obtain ⟨turns, minted, _, observed, completed, interrupted, discarded⟩ := hb.books
  rw [if_pos hin] at turns minted
  refine ⟨?_, hplayed⟩
  constructor
  · rw [hout]
    show l.minted = _
    rw [turns, List.map_append]
    simp [hturn]
  · rw [hout, hcompleted, hinterrupted, hdiscarded]
    show l.minted.length = _
    simp only [Bool.false_eq_true, if_false]
    omega
  · exact hsettled
  · rw [hobserved, observed, List.map_append]
    rfl
  · rw [hcompleted, completed, count_append]
  · rw [hinterrupted, interrupted, count_append]
  · rw [hdiscarded, discarded, count_append]

/-- What the ledger notes of a turn that an event has ended. -/
def endRecord (h : FsmHost) (l : Ledger) (e : Event) (outcome : String) : TurnRecord where
  turn := h.fsm.active.id
  outcome := outcome
  byUser := e.kind = .userInterrupted
  heard := l.since.any (playedOf h.fsm.active.id)

theorem noteEvent_begins {h : FsmHost} {l : Ledger} {now : TimePoint} {e : Event}
    (hkind : e.kind = .speechStarted) (hstarts : h.fsm.startsTurn = true) :
    noteEvent now e l h = { l with minted := l.minted ++ [h.turns.next], since := [] } := by
  rw [noteEvent, if_pos ((onEvent_mints_iff now e).mpr ⟨hkind, hstarts⟩)]

theorem noteEvent_goesOn {h : FsmHost} {l : Ledger} {now : TimePoint} {e : Event}
    (hkind : ¬ (e.kind = .speechStarted ∧ h.fsm.startsTurn = true))
    (hin : (h.onEvent now e).fsm.inTurn = h.fsm.inTurn) :
    noteEvent now e l h = { l with since := l.since ++ [e] } := by
  have hnot : ¬ (h.fsm.inTurn = true ∧ (h.onEvent now e).fsm.inTurn = false) := by
    rw [hin]
    simp
  rw [noteEvent, if_neg ((onEvent_mints_iff now e).not.mpr hkind), if_neg hnot]

theorem noteEvent_ends {h : FsmHost} {l : Ledger} {now : TimePoint} {e : Event}
    (hkind : e.kind ≠ .speechStarted) (hin : h.fsm.inTurn = true)
    (hout : (h.onEvent now e).fsm.inTurn = false) :
    noteEvent now e l h = { l with
      since := l.since ++ [e]
      ended := l.ended ++ [endRecord h l e (bumped h.fsm (h.onEvent now e).fsm)] } := by
  have hstart : ¬ (e.kind = .speechStarted ∧ h.fsm.startsTurn = true) := fun hk => hkind hk.1
  rw [noteEvent, if_neg ((onEvent_mints_iff now e).not.mpr hstart), if_pos ⟨hin, hout⟩]
  rfl

theorem Booked.onEvent {h : FsmHost} {l : Ledger} (hb : Booked h l) (now : TimePoint) (e : Event) :
    Booked (h.onEvent now e) (noteEvent now e l h) := by
  have hsettled := onEvent_settled now e hb.books.settled
  -- of an event that begins no turn
  have hcounts : ¬ (e.kind = .speechStarted ∧ h.fsm.startsTurn = true) →
      (h.onEvent now e).fsm.active.id = h.fsm.active.id ∧
        (h.onEvent now e).fsm.sentencesPlayed =
          UInt32.ofNat ((l.since ++ [e]).countP (playedOf (h.onEvent now e).fsm.active.id)) := by
    intro hkind
    obtain ⟨hid, hplayed⟩ := onEvent_sentencesPlayed now e hkind
    refine ⟨hid, ?_⟩
    rw [hplayed, hid, List.countP_append, List.countP_singleton, hb.played, playbacks]
    split
    · exact (UInt32.ofNat_add _ 1).symm
    · rfl
  cases onEvent_turnStep now e hb.books.settled with
  | begins hkind hstarts hturn hin hplayed htally =>
      obtain ⟨hcompleted, hinterrupted, hdiscarded, hobserved⟩ := htally
      have ha := hb.books
      have hidle : ¬ (h.fsm.inTurn = true) := by
        rw [Fsm.startsTurn_inTurn hstarts]
        exact Bool.false_ne_true
      have hminted := ha.minted
      have hturns := ha.turns
      rw [if_neg hidle] at hminted hturns
      rw [noteEvent_begins hkind hstarts]
      refine ⟨⟨?_, ?_, hsettled, ?_, ?_, ?_, ?_⟩, hplayed⟩
      · rw [if_pos hin, hturn]
        show l.minted ++ _ = l.ended.map _ ++ _
        rw [hturns, List.append_nil]
      · rw [if_pos hin, hcompleted, hinterrupted, hdiscarded, List.length_append]
        show l.minted.length + 1 = _
        omega
      · exact hobserved.trans ha.observed
      · exact hcompleted.trans ha.completed
      · exact hinterrupted.trans ha.interrupted
      · exact hdiscarded.trans ha.discarded
  | goesOn hkind hin htally =>
      obtain ⟨hid, hplayed⟩ := hcounts hkind
      rw [noteEvent_goesOn hkind hin]
      exact hb.goesOn hsettled hin hid htally hplayed
  | completes hkind hin hout hcompleted hinterrupted hdiscarded hobserved =>
      obtain ⟨-, hplayed⟩ := hcounts fun hk => hkind.1 hk.1
      have hlabel : bumped h.fsm (h.onEvent now e).fsm = "completed" := by
        simp [bumped, hcompleted]
      rw [noteEvent_ends hkind.1 hin hout, hlabel]
      exact hb.ends hsettled hin hout rfl hcompleted hinterrupted hdiscarded (by simp [endRecord])
        hobserved hplayed
  | interrupts hkind _ hin hout hcompleted hinterrupted hdiscarded hobserved =>
      have hstart : e.kind ≠ .speechStarted := by simp [hkind]
      obtain ⟨-, hplayed⟩ := hcounts fun hk => hstart hk.1
      have hlabel : bumped h.fsm (h.onEvent now e).fsm = "interrupted" := by
        simp [bumped, hcompleted, hinterrupted]
      rw [noteEvent_ends hstart hin hout, hlabel]
      exact hb.ends hsettled hin hout rfl hcompleted hinterrupted hdiscarded (by simp [endRecord])
        hobserved hplayed
  | discards hkind _ hin hout hcompleted hinterrupted hdiscarded hobserved =>
      have hstart : e.kind ≠ .speechStarted := by simp [hkind]
      obtain ⟨-, hplayed⟩ := hcounts fun hk => hstart hk.1
      have hlabel : bumped h.fsm (h.onEvent now e).fsm = "discarded" := by
        simp [bumped, hcompleted, hinterrupted, hdiscarded]
      rw [noteEvent_ends hstart hin hout, hlabel]
      exact hb.ends hsettled hin hout rfl hcompleted hinterrupted hdiscarded (by simp [endRecord])
        hobserved hplayed

theorem Booked.step {h h' : FsmHost} {l : Ledger} {a : HostAction} (hb : Booked h l)
    (hs : step h a = some h') : Booked h' (note l h a) := by
  cases a with
  | start now =>
      simp only [FsmHost.step] at hs
      split at hs
      next hidle =>
        cases hs
        exact hb.goesOn (Fsm.settled_transition (by decide) (by decide) now _)
          (by simp [start, Fsm.inTurn, hidle]) rfl ⟨rfl, rfl, rfl, rfl⟩ hb.played
      next => cases hs
  | event now e =>
      cases hs
      exact hb.onEvent now e
  | mint =>
      cases hs
      exact hb.goesOn hb.books.settled rfl rfl ⟨rfl, rfl, rfl, rfl⟩ hb.played

/-! ## Turns that the user ended -/

theorem countedAsHeard_append {l : Ledger} {since : List Event} {r : TurnRecord} :
    CountedAsHeard { l with since := since, ended := l.ended ++ [r] } ↔
      CountedAsHeard l ∧
        (r.byUser = true → r.outcome = if r.heard = true then "interrupted" else "discarded") := by
  simp [CountedAsHeard, or_imp, forall_and]

/-- The record of an interruption is right unless it came at a count come round to zero. -/
theorem Booked.countedAsHeard_onEvent {h : FsmHost} {l : Ledger} (hb : Booked h l)
    (now : TimePoint) (e : Event) :
    CountedAsHeard (noteEvent now e l h) ↔
      CountedAsHeard l ∧ CountsPlayed (h, l) (.event now e) := by
  have hheard : l.since.any (playedOf h.fsm.active.id) = true ↔ playbacks h l ≠ 0 := by
    rw [List.any_eq_true, playbacks, ← Nat.pos_iff_ne_zero, List.countP_pos_iff]
  have hplays : 1 ≤ h.fsm.sentencesPlayed ↔ playbacks h l % 2 ^ 32 ≠ 0 := by
    rw [hb.played, one_le_ofNat_iff]
  cases onEvent_turnStep now e hb.books.settled with
  | begins hkind hstarts _ _ _ _ =>
      rw [noteEvent_begins hkind hstarts]
      exact (and_iff_left fun hint => by rw [hkind] at hint; cases hint).symm
  | goesOn hkind hin _ =>
      rw [noteEvent_goesOn hkind hin]
      refine (and_iff_left fun hint hturn => ?_).symm
      -- an interruption of a turn ends it
      obtain ⟨e, rfl⟩ := Event.eq_userInterrupted_of_kind hint
      have hidle : h.fsm.state ≠ .idle := fun hs => by simp [Fsm.inTurn, hs] at hturn
      have hends : (h.fsm.handleUserInterrupted now).state = .listening :=
        Fsm.handleUserInterrupted_state now hidle
      have hover : (h.fsm.handleUserInterrupted now).inTurn = false := by
        simp [Fsm.inTurn, hends]
      have hgoing : (h.fsm.handleUserInterrupted now).inTurn = true := hin.trans hturn
      rw [hover] at hgoing
      cases hgoing
  | completes hkind hin hout _ _ _ _ =>
      rw [noteEvent_ends hkind.1 hin hout, countedAsHeard_append]
      exact and_congr_right' (iff_of_true (fun hby => absurd (of_decide_eq_true hby) hkind.2)
        fun hint => absurd hint hkind.2)
  | interrupts hkind hcounted hin hout hcompleted hinterrupted _ _ =>
      have hstart : e.kind ≠ .speechStarted := by simp [hkind]
      have hlabel : bumped h.fsm (h.onEvent now e).fsm = "interrupted" := by
        simp [bumped, hcompleted, hinterrupted]
      have hround := hplays.mp hcounted
      have hany := hheard.mpr fun hzero => hround (by rw [hzero, Nat.zero_mod])
      rw [noteEvent_ends hstart hin hout, hlabel, countedAsHeard_append]
      exact and_congr_right' (iff_of_true (fun _ => (if_pos hany).symm)
        fun _ _ hzero => absurd hzero hround)
  | discards hkind hcounted hin hout hcompleted hinterrupted hdiscarded _ =>
      have hstart : e.kind ≠ .speechStarted := by simp [hkind]
      have hlabel : bumped h.fsm (h.onEvent now e).fsm = "discarded" := by
        simp [bumped, hcompleted, hinterrupted, hdiscarded]
      have hround : playbacks h l % 2 ^ 32 = 0 := not_not.mp fun hne => hcounted (hplays.mpr hne)
      rw [noteEvent_ends hstart hin hout, hlabel, countedAsHeard_append]
      refine and_congr_right' ⟨fun hright _ _ _ => ?_, fun hcount _ => ?_⟩
      · by_contra hpos
        have hwrong := hright (decide_eq_true hkind)
        have hany : (endRecord h l e "discarded").heard = true := hheard.mpr hpos
        rw [if_pos hany] at hwrong
        exact absurd hwrong (by simp [endRecord])
      · exact (if_neg fun hany => hheard.mp hany (hcount hkind hin hround)).symm

/-- What is noted of the turns that have ended stays. -/
theorem note_keeps_ended (l : Ledger) (h : FsmHost) (a : HostAction) :
    l.ended <+: (note l h a).ended := by
  cases a with
  | event now e =>
      simp only [note, noteEvent]
      split
      · exact List.prefix_rfl
      · split
        · exact List.prefix_append ..
        · exact List.prefix_rfl
  | _ => exact List.prefix_rfl

theorem CountedAsHeard.of_later {l l' : Ledger} (h : CountedAsHeard l')
    (hp : l.ended <+: l'.ended) : CountedAsHeard l := fun r hr => h r (hp.subset hr)

theorem countedAsHeard_step {h h' : FsmHost} {l : Ledger} {a : HostAction} (hb : Booked h l)
    (hs : step h a = some h') :
    CountedAsHeard (note l h a) ↔ CountedAsHeard l ∧ CountsPlayed (h, l) a := by
  cases a with
  | event now e => exact hb.countedAsHeard_onEvent now e
  | start _ => exact (and_iff_left trivial).symm
  | mint => exact (and_iff_left trivial).symm

/-! ## Runs -/

theorem booked_watch {p p' : FsmHost × Ledger} {a : HostAction} (hb : Booked p.1 p.2)
    (hs : watch step note p a = some p') : Booked p'.1 p'.2 := by
  obtain ⟨hstep, hnote⟩ := watch_eq_some.mp hs
  rw [hnote]
  exact hb.step hstep

/-- Whatever happens, the accounts of the machine agree with the ledger exactly if no turn is
interrupted at a positive multiple of `2 ^ 32` playbacks. -/
theorem run_accounts_iff {h : FsmHost} {l : Ledger} {acts : List HostAction}
    (hrun : run (watch step note) ({}, {}) acts = some (h, l)) :
    Accounts h l ↔ Always (watch step note) CountsPlayed ({}, {}) acts := by
  have hbooks : Booked h l :=
    run_preserves (fun w => Booked w.1 w.2) (fun _ _ _ => booked_watch) hrun booked_initial
  have hheard : CountedAsHeard l ↔ Always (watch step note) CountsPlayed ({}, {}) acts := by
    refine run_iff_always (fun w => Booked w.1 w.2) (fun w => CountedAsHeard w.2)
      (fun _ _ _ => booked_watch) (fun w a w' hb hgood hs => ?_) (fun w a w' _ hbad hs hgood => ?_)
      hrun booked_initial countedAsHeard_initial
    · obtain ⟨hstep, hnote⟩ := watch_eq_some.mp hs
      rw [hnote, countedAsHeard_step hb hstep]
      exact and_iff_right hgood
    · obtain ⟨-, hnote⟩ := watch_eq_some.mp hs
      rw [hnote] at hgood
      exact hbad (hgood.of_later (note_keeps_ended w.2 w.1 a))
  exact ⟨fun ha => hheard.mp ha.byUser, fun hall => ⟨hbooks.books, hheard.mpr hall⟩⟩

/-- One reply is interrupted after its first sentence, one before it. -/
def twoBargeIns : List HostAction :=
  [.start 0, .event 1 (.speechStarted {}), .event 2 (.speechEnded {}),
    .event 3 (.finalTranscript {}), .event 4 (.llmSentence { turn := 1 }),
    .event 5 (.llmSentence { turn := 1, seq := 1 }), .event 6 (.playbackFinished { turn := 1 }),
    .event 7 (.userInterrupted { turn := 1 }), .event 8 (.speechStarted {}),
    .event 9 (.playbackFinished { turn := 1, seq := 1 }), .event 10 (.userInterrupted {}),
    .event 11 (.speechStarted {})]

theorem run_accounts_iff_twoBargeIns :
    ∃ h l, run (watch step note) ({}, {}) twoBargeIns = some (h, l) ∧
      l.ended.map (·.outcome) = ["interrupted", "discarded"] ∧ l.minted.length = 3 ∧
        Accounts h l := by
  obtain ⟨⟨h, l⟩, hrun, hended, hminted⟩ : ∃ w,
      run (watch step note) ({}, {}) twoBargeIns = some w ∧
        w.2.ended.map (·.outcome) = ["interrupted", "discarded"] ∧ w.2.minted.length = 3 := by
    refine ⟨(run (watch step note) ({}, {}) twoBargeIns).get (by decide), ?_, by decide, by decide⟩
    exact (Option.some_get _).symm
  exact ⟨h, l, hrun, hended, hminted, (run_accounts_iff hrun).mpr (by decide)⟩

/-! ## A reply that goes on -/

/-- The reply to one question, after `n` of its sentences have been played. -/
def longReply (n : Nat) : List HostAction :=
  [.start 0, .event 1 (.speechStarted {}), .event 2 (.speechEnded {}),
    .event 3 (.finalTranscript {}), .event 4 (.llmSentence { turn := 1 })] ++
    (List.replicate n [.event 5 (.playbackFinished { turn := 1 }),
      .event 6 (.llmSentence { turn := 1 })]).flatten

/-- The machine is in the midst of that reply. -/
structure Spoken (n : Nat) (p : FsmHost × Ledger) : Prop where
  booked : Booked p.1 p.2
  state : p.1.fsm.state = .speaking
  turn : p.1.fsm.active.id = 1
  unfinished : p.1.fsm.llmFinishedSeen = false
  heard : playbacks p.1 p.2 = n

section
variable {n : Nat} {h : FsmHost} {l : Ledger} (now : TimePoint)

theorem Spoken.played (hs : Spoken n (h, l)) :
    Spoken (n + 1) (h.onEvent now (.playbackFinished { turn := 1 }),
      noteEvent now (.playbackFinished { turn := 1 }) l h) := by
  have hhost : h.onEvent now (.playbackFinished { turn := 1 }) =
      { h with fsm := { h.fsm with sentencesPlayed := h.fsm.sentencesPlayed + 1 } } := by
    show { h with fsm := h.fsm.handlePlaybackFinished { turn := 1 } now } = _
    have hopen : ¬ h.fsm.llmFinishedSeen = true := Bool.not_eq_true _ ▸ hs.unfinished
    rw [Fsm.handlePlaybackFinished, if_neg (not_not.mpr hs.turn.symm)]
    dsimp only
    rw [if_neg fun hdone => hopen hdone.2.1]
  have hbooked := hs.booked.onEvent now (.playbackFinished { turn := 1 })
  rw [noteEvent_goesOn (by simp [Event.kind]) (by rw [hhost]; rfl)] at hbooked ⊢
  rw [hhost] at hbooked ⊢
  refine ⟨hbooked, hs.state, hs.turn, hs.unfinished, ?_⟩
  have hheard : l.since.countP (playedOf h.fsm.active.id) = n := hs.heard
  have hturn : h.fsm.active.id = 1 := hs.turn
  show (l.since ++ [_]).countP (playedOf h.fsm.active.id) = n + 1
  rw [List.countP_append, hheard]
  simp [playedOf, hturn]

theorem Spoken.sentence (hs : Spoken n (h, l)) :
    Spoken n (h.onEvent now (.llmSentence { turn := 1 }),
      noteEvent now (.llmSentence { turn := 1 }) l h) := by
  have hhost : h.onEvent now (.llmSentence { turn := 1 }) =
      { h with fsm := { h.fsm with sentencesReceived := h.fsm.sentencesReceived + 1 } } := by
    show { h with fsm := h.fsm.handleLlmSentence now } = _
    rw [Fsm.handleLlmSentence, if_neg (by rw [hs.state]; decide)]
  have hbooked := hs.booked.onEvent now (.llmSentence { turn := 1 })
  rw [noteEvent_goesOn (by simp [Event.kind]) (by rw [hhost]; rfl)] at hbooked ⊢
  rw [hhost] at hbooked ⊢
  refine ⟨hbooked, hs.state, hs.turn, hs.unfinished, ?_⟩
  have hheard : l.since.countP (playedOf h.fsm.active.id) = n := hs.heard
  show (l.since ++ [_]).countP (playedOf h.fsm.active.id) = n
  rw [List.countP_append, hheard]
  simp [playedOf]

end

theorem run_longReply (n : Nat) :
    ∃ p, run (watch step note) ({}, {}) (longReply n) = some p ∧ Spoken n p := by
  obtain ⟨p, hrun, hs⟩ : ∃ p, run (watch step note) ({}, {}) (longReply 0) = some p ∧
      Spoken 0 p := by
    refine ⟨(run (watch step note) ({}, {}) (longReply 0)).get (by decide),
      (Option.some_get _).symm, ?_, by decide, by decide, by decide, by decide⟩
    exact run_preserves (fun w : FsmHost × Ledger => Booked w.1 w.2) (fun _ _ _ => booked_watch)
      (Option.some_get _).symm booked_initial
  suffices h : ∀ k m q, Spoken m q → ∃ q', run (watch step note) q
      (List.replicate k [.event 5 (.playbackFinished { turn := 1 }),
        .event 6 (.llmSentence { turn := 1 })]).flatten = some q' ∧ Spoken (m + k) q' by
    obtain ⟨q, hrest, hq⟩ := h n 0 p hs
    rw [Nat.zero_add] at hq
    refine ⟨q, ?_, hq⟩
    rw [longReply, run_append]
    have hfirst : run (watch step note) ({}, {}) [.start 0, .event 1 (.speechStarted {}),
        .event 2 (.speechEnded {}), .event 3 (.finalTranscript {}),
        .event 4 (.llmSentence { turn := 1 })] = some p := hrun
    rw [hfirst]
    exact hrest
  intro k
  induction k with
  | zero => exact fun m q hq => ⟨q, rfl, hq⟩
  | succ k ih =>
      intro m q hq
      obtain ⟨q', hrest, hq'⟩ := ih (m + 1) _ ((hq.played 5).sentence 6)
      refine ⟨q', ?_, by rwa [show m + (k + 1) = m + 1 + k by omega]⟩
      rw [List.replicate_succ, List.flatten_cons, run_append]
      exact hrest

/-- After `2 ^ 32` sentences were heard, the interrupted turn is one that was never heard. -/
theorem longReply_discarded :
    ∃ h l, run (watch step note) ({}, {})
        (longReply (2 ^ 32) ++ [.event 7 (.userInterrupted { turn := 1 })]) = some (h, l) ∧
      ¬ Accounts h l := by
  obtain ⟨p, hrun, hs⟩ := run_longReply (2 ^ 32)
  refine ⟨p.1.onEvent 7 (.userInterrupted { turn := 1 }),
    noteEvent 7 (.userInterrupted { turn := 1 }) p.2 p.1, ?_, fun ha => ?_⟩
  · rw [run_append, hrun]
    rfl
  · obtain ⟨-, hcounts⟩ := (hs.booked.countedAsHeard_onEvent 7 _).mp ha.byUser
    have hzero := hcounts rfl (by simp [Fsm.inTurn, hs.state]) (by rw [hs.heard, Nat.mod_self])
    rw [hs.heard] at hzero
    exact absurd hzero (by decide)

end FsmHost

end Acva.Dialogue

import Acva.Core.Runs
import Acva.Stt.RealtimeSttClient

/-! # Bringing the session up

`start` goes through the stages of the handshake. It waits for each with the mutex released, so
that between any two of its locked sections the callbacks of the peer connection and of the data
channel come in, and any thread may stop the client or begin an utterance. The exchange of the
descriptions and the clock are choices of the environment: a request fails, a wait times out.
-/

namespace Acva.Stt

open Acva.Audio Acva.Dialogue Acva.Playback Acva.Runs

/-! ## The machine -/

inductive PeerState
  | new
  | connecting
  | connected
  | disconnected
  | failed
  | closed
deriving DecidableEq, Repr

/-- The waits before the session is configured. -/
inductive Stage
  | gather
  | connect
  | channel
deriving DecidableEq, Repr

/-- Where `start` stands. -/
inductive StartPc
  | notStarted
  | waiting (stage : Stage)
  /-- The wait came through, and whether the state is `Failed` is looked at next. -/
  | checking (stage : Stage)
  /-- The offer is posted and the answer applied. -/
  | posting
  | configuring
  | sending
  | awaitingUpdate
  /-- The last wait came through. -/
  | deciding
  /-- A wait timed out or the request failed. -/
  | givingUp
  | returned (ok : Bool)
deriving DecidableEq, Repr

/-- How far `start` has come. -/
inductive Milestone
  | gathered
  | answered
  | connected
  | opened
  | configured
  | updated
deriving DecidableEq, Repr

structure BringUp (ρ : Type) where
  client : RealtimeSttClient ρ := {}
  iceGathered : Bool := false
  channelOpen : Bool := false
  pcState : PeerState := .new
  pc : StartPc := .notStarted
deriving DecidableEq, Repr

/-- What the environment makes of the start thread's next step. -/
inductive StartChoice
  | comesThrough
  | fails
deriving DecidableEq, Repr

inductive BringUpAction
  | start
  | starter (choice : StartChoice)
  | onGatheringComplete
  | onStateChange (peer : PeerState)
  | onOpen
  | onMessage (pool : TokenPool) (e : ServerEvent)
  | beginUtterance (turn : TurnId) (cancel : Option TokenRef) (cb : UtteranceCallbacks)
  | pushAudio (pool : TokenPool) (samples : List Sample)
  | endUtterance
  | stop
deriving DecidableEq, Repr

namespace BringUp

variable {ρ : Type}

def onState (s : BringUp ρ) (state : RealtimeState) : BringUp ρ :=
  { s with client := { s.client with state := state } }

def done (s : BringUp ρ) : Stage → Bool
  | .gather => s.iceGathered
  | .connect => s.pcState = .connected
  | .channel => s.channelOpen

def afterStage : Stage → StartPc
  | .gather => .posting
  | .connect => .waiting .channel
  | .channel => .configuring

/-- `wait_until`: it comes through once the predicate holds, and it times out only if it does
not hold. -/
def await (holds : Bool) (next : StartPc) (choice : StartChoice) (s : BringUp ρ) :
    Option (BringUp ρ) :=
  match choice, holds with
  | .comesThrough, true => some { s with pc := next }
  | .fails, false => some { s with pc := .givingUp }
  | _, _ => none

def starter (s : BringUp ρ) (choice : StartChoice) : Option (BringUp ρ) :=
  match s.pc with
  | .notStarted => none
  | .waiting stage =>
      s.await (s.done stage || s.client.state = .failed) (.checking stage) choice
  | .checking stage =>
      if s.client.state = .failed then some { s with pc := .returned false }
      else some { s with pc := afterStage stage }
  | .posting =>
      match choice with
      | .comesThrough => some { s with pc := .waiting .connect }
      | .fails => some { s with pc := .givingUp }
  | .configuring => some { s.onState .configuring with pc := .sending }
  | .sending => some { s with pc := .awaitingUpdate }
  | .awaitingUpdate =>
      s.await (s.client.state = .ready || s.client.state = .failed) .deciding choice
  | .deciding => some { s with pc := .returned (s.client.state = .ready) }
  | .givingUp => some { s.onState .failed with pc := .returned false }
  | .returned _ => none

def lost : PeerState → Bool
  | .failed => true
  | .closed => true
  | .disconnected => true
  | _ => false

def step (soxr : Soxr ρ) (s : BringUp ρ) : BringUpAction → Option (BringUp ρ)
  | .start =>
      if s.client.state = .idle then
        some { s.onState .connecting with pc := .waiting .gather }
      else some s
  | .starter choice => s.starter choice
  | .onGatheringComplete =>
      if s.pc = .notStarted then none else some { s with iceGathered := true }
  | .onStateChange peer =>
      if s.pc = .notStarted then none
      else
        some { s with
          pcState := peer
          client := if lost peer = true then s.client.connectionLost else s.client }
  | .onOpen => if s.pc = .notStarted then none else some { s with channelOpen := true }
  | .onMessage pool e =>
      if s.pc = .notStarted then none else some { s with client := (s.client.dispatch pool e).1 }
  | .beginUtterance turn cancel cb =>
      some { s with client := (s.client.beginUtterance soxr turn cancel cb).1 }
  | .pushAudio pool samples =>
      some { s with client := (s.client.pushAudio soxr pool samples).1 }
  | .endUtterance => some { s with client := (s.client.endUtterance soxr).1 }
  | .stop => some { s with client := s.client.stop }

end BringUp

/-! ## What is written down -/

/-- An utterance that was begun: where `start` stood, the state of the client, and what of the
handshake had been passed. -/
structure Begun where
  pc : StartPc
  state : RealtimeState
  passed : List Milestone
deriving DecidableEq, Repr

structure BringUpLedger where
  /-- The calls of `start` that got past the first look at the state. -/
  starts : Nat := 0
  /-- The steps of the start thread since. -/
  steps : Nat := 0
  trail : List Milestone := []
  begun : List Begun := []
  /-- Somebody stopped the client while `start` was under way. -/
  interrupted : Bool := false
  /-- Somebody stopped it after `start` had returned. -/
  stopped : Bool := false
deriving DecidableEq, Repr

def StartPc.isReturned : StartPc → Bool
  | .returned _ => true
  | _ => false

namespace BringUp

variable {ρ : Type}

def milestoneOf : Stage → Milestone
  | .gather => .gathered
  | .connect => .connected
  | .channel => .opened

/-- What the start thread passes with its next step. -/
def passedBy (s : BringUp ρ) (choice : StartChoice) : List Milestone :=
  match s.pc, choice with
  | .waiting stage, .comesThrough => if s.done stage = true then [milestoneOf stage] else []
  | .posting, .comesThrough => [.answered]
  | .configuring, _ => [.configured]
  | _, _ => []

def noteBringUp (l : BringUpLedger) (s : BringUp ρ) : BringUpAction → BringUpLedger
  | .start => if s.client.state = .idle then { l with starts := l.starts + 1 } else l
  | .starter choice =>
      { l with steps := l.steps + 1, trail := l.trail ++ s.passedBy choice }
  | .onMessage _ .sessionUpdated =>
      if s.pc ≠ .notStarted ∧ s.client.state = .configuring then
        { l with trail := l.trail ++ [.updated] }
      else l
  | .beginUtterance _ _ _ =>
      if s.client.state = .ready then
        { l with begun := l.begun ++ [⟨s.pc, s.client.state, l.trail⟩] }
      else l
  | .stop =>
      if s.pc = .notStarted then l
      else if s.pc.isReturned = true then { l with stopped := true }
      else { l with interrupted := true }
  | _ => l

end BringUp

/-! ## The state of the client

Of what the callbacks and the utterances do, only the confirmed update sets the state. -/

namespace RealtimeSttClient

variable {ρ : Type} (c : RealtimeSttClient ρ)

theorem beginUtterance_state (soxr : Soxr ρ) (turn : TurnId) (cancel : Option TokenRef)
    (cb : UtteranceCallbacks) : (c.beginUtterance soxr turn cancel cb).1.state = c.state := by
  unfold beginUtterance
  split <;> rfl

theorem pushAudio_state (soxr : Soxr ρ) (pool : TokenPool) (samples : List Sample) :
    (c.pushAudio soxr pool samples).1.state = c.state := by
  unfold pushAudio
  split <;> rfl

theorem endUtterance_state (soxr : Soxr ρ) : (c.endUtterance soxr).1.state = c.state := by
  unfold endUtterance
  split
  · rfl
  · split <;> rfl

theorem onPartial_state (pool : TokenPool) (itemId delta : Bytes) :
    (c.onPartial pool itemId delta).1.state = c.state := by
  unfold onPartial
  split
  · rfl
  · split <;> rfl

theorem onFinal_state (pool : TokenPool) (itemId transcript language : Bytes) :
    (c.onFinal pool itemId transcript language).1.state = c.state := by
  unfold onFinal
  split
  · rfl
  · split <;> rfl

theorem onServerError_state (message : Bytes) :
    (c.onServerError message).1.state = c.state := by
  unfold onServerError
  split <;> rfl

theorem dispatch_state (pool : TokenPool) (e : ServerEvent) (he : e ≠ .sessionUpdated) :
    (c.dispatch pool e).1.state = c.state := by
  cases e with
  | delta itemId delta =>
      simp only [dispatch]
      split
      · rfl
      · exact c.onPartial_state pool itemId delta
  | completed itemId transcript language =>
      simp only [dispatch]
      split
      · rfl
      · exact c.onFinal_state pool itemId transcript language
  | committed itemId =>
      simp only [dispatch, onCommitted]
      split
      · rfl
      · split <;> rfl
  | sessionUpdated => exact absurd rfl he
  | error message => exact c.onServerError_state message

end RealtimeSttClient

namespace BringUp

variable {ρ : Type} {s s' : BringUp ρ}

/-! ## The start thread -/

/-- What the start thread's next step can be, and what it passes with it. -/
inductive Starts (s : BringUp ρ) : BringUp ρ → List Milestone → Prop
  | come (stage : Stage) (hpc : s.pc = .waiting stage) (hdone : s.done stage = true) :
      Starts s { s with pc := .checking stage } [milestoneOf stage]
  | wake (stage : Stage) (hpc : s.pc = .waiting stage) (hfailed : s.client.state = .failed) :
      Starts s { s with pc := .checking stage } []
  | expire (hpc : (∃ stage, s.pc = .waiting stage) ∨ s.pc = .posting) :
      Starts s { s with pc := .givingUp } []
  | gone (stage : Stage) (hpc : s.pc = .checking stage) (hfailed : s.client.state = .failed) :
      Starts s { s with pc := .returned false } []
  | next (stage : Stage) (hpc : s.pc = .checking stage) (hstate : s.client.state ≠ .failed) :
      Starts s { s with pc := afterStage stage } []
  | answer (hpc : s.pc = .posting) : Starts s { s with pc := .waiting .connect } [.answered]
  | configure (hpc : s.pc = .configuring) :
      Starts s { s.onState .configuring with pc := .sending } [.configured]
  | send (hpc : s.pc = .sending) : Starts s { s with pc := .awaitingUpdate } []
  | settle (hpc : s.pc = .awaitingUpdate)
      (hstate : s.client.state = .ready ∨ s.client.state = .failed) :
      Starts s { s with pc := .deciding } []
  | unconfirmed (hpc : s.pc = .awaitingUpdate) : Starts s { s with pc := .givingUp } []
  | conclude (hpc : s.pc = .deciding) :
      Starts s { s with pc := .returned (s.client.state = .ready) } []
  | giveUp (hpc : s.pc = .givingUp) :
      Starts s { s.onState .failed with pc := .returned false } []

theorem starter_eq_some {choice : StartChoice} (h : s.starter choice = some s') :
    Starts s s' (s.passedBy choice) := by
  unfold starter at h
  split at h
  next => cases h
  next stage hpc =>
    cases choice with
    | comesThrough =>
        simp only [passedBy, hpc]
        by_cases hdone : s.done stage = true
        · simp only [await, hdone, Bool.true_or] at h
          cases h
          rw [if_pos hdone]
          exact .come stage hpc hdone
        · simp only [await, hdone, Bool.false_or] at h
          rw [if_neg hdone]
          by_cases hfailed : s.client.state = .failed
          · simp only [hfailed, decide_true] at h
            cases h
            exact .wake stage hpc hfailed
          · simp only [hfailed, decide_false] at h
            cases h
    | fails =>
        simp only [await] at h
        split at h
        next hchoice _ => cases hchoice
        next =>
          cases h
          simp only [passedBy, hpc]
          exact .expire (.inl ⟨stage, hpc⟩)
        next => cases h
  next stage hpc =>
    simp only [passedBy, hpc]
    split at h
    next hfailed =>
      cases h
      exact .gone stage hpc hfailed
    next hstate =>
      cases h
      exact .next stage hpc hstate
  next hpc =>
    cases choice with
    | comesThrough =>
        cases h
        simp only [passedBy, hpc]
        exact .answer hpc
    | fails =>
        cases h
        simp only [passedBy, hpc]
        exact .expire (.inr hpc)
  next hpc =>
    cases h
    simp only [passedBy, hpc]
    exact .configure hpc
  next hpc =>
    cases h
    simp only [passedBy, hpc]
    exact .send hpc
  next hpc =>
    simp only [passedBy, hpc]
    simp only [await] at h
    split at h
    next hholds =>
      cases h
      exact .settle hpc (by simpa using hholds)
    next =>
      cases h
      exact .unconfirmed hpc
    next => cases h
  next hpc =>
    cases h
    simp only [passedBy, hpc]
    exact .conclude hpc
  next hpc =>
    cases h
    simp only [passedBy, hpc]
    exact .giveUp hpc
  next => cases h

/-- Whatever the others have done, the start thread has a next step until it returns. -/
theorem starter_enabled (hpc : s.pc ≠ .notStarted) (hunder : s.pc.isReturned = false) :
    ∃ choice, (s.starter choice).isSome = true := by
  have hawait : ∀ (holds : Bool) (next : StartPc),
      ∃ choice, (s.await holds next choice).isSome = true := by
    intro holds next
    cases holds with
    | true => exact ⟨.comesThrough, rfl⟩
    | false => exact ⟨.fails, rfl⟩
  unfold starter
  cases hwhere : s.pc with
  | notStarted => exact absurd hwhere hpc
  | waiting stage => exact hawait _ _
  | checking stage => exact ⟨.comesThrough, by dsimp only; split <;> rfl⟩
  | posting => exact ⟨.comesThrough, rfl⟩
  | configuring => exact ⟨.comesThrough, rfl⟩
  | sending => exact ⟨.comesThrough, rfl⟩
  | awaitingUpdate => exact hawait _ _
  | deciding => exact ⟨.comesThrough, rfl⟩
  | givingUp => exact ⟨.comesThrough, rfl⟩
  | returned ok =>
      rw [hwhere] at hunder
      cases hunder

end BringUp

end Acva.Stt

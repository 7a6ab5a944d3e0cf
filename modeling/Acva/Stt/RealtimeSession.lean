import Acva.Core.Runs
import Acva.Stt.RealtimeSttClient
import Mathlib.Logic.Function.Basic

/-! # A realtime session

Any number of threads call the client, the data channel's thread dispatches what
the server reports, and the server answers the commits in the order it gets them:
one item id a commit, then the deltas and one transcript of that item. Nothing
says when a report arrives.
-/

namespace Acva.Stt

open Acva.Audio Acva.Dialogue Acva.Playback Acva.Runs

/-! ## The server -/

/-- The commits it has not answered, the items with the utterances they are of, the items
that are done, and the text it has produced for each item. -/
structure TranscriptionServer where
  unanswered : List UtteranceId := []
  items : List (Bytes × UtteranceId) := []
  completed : List Bytes := []
  deltas : List (Bytes × Bytes) := []
  transcripts : List (Bytes × Bytes) := []
deriving DecidableEq, Repr

namespace TranscriptionServer

def receive (m : ClientMessage) (server : TranscriptionServer) : TranscriptionServer :=
  match m with
  | .commit owner => { server with unanswered := server.unanswered ++ [owner] }
  | _ => server

/-- The item is transcribed. -/
def Working (itemId : Bytes) (server : TranscriptionServer) : Prop :=
  itemId ∈ server.items.map Prod.fst ∧ itemId ∉ server.completed

instance (itemId : Bytes) (server : TranscriptionServer) : Decidable (server.Working itemId) :=
  inferInstanceAs (Decidable (_ ∧ _))

/-- The server after a report, if it can make it. -/
def report (e : ServerEvent) (server : TranscriptionServer) : Option TranscriptionServer :=
  match e with
  | .committed itemId =>
      match server.unanswered with
      | owner :: rest =>
          if itemId ≠ [] ∧ itemId ∉ server.items.map Prod.fst then
            some { server with unanswered := rest, items := server.items ++ [(itemId, owner)] }
          else none
      | [] => none
  | .delta itemId delta =>
      if server.Working itemId then
        some { server with deltas := server.deltas ++ [(itemId, delta)] }
      else none
  | .completed itemId transcript _ =>
      if server.Working itemId then
        some { server with
          completed := server.completed ++ [itemId]
          transcripts := server.transcripts ++ [(itemId, transcript)] }
      else none
  | .sessionUpdated => some server
  | .error _ => some server

/-- All deltas of an item. -/
def textOf (itemId : Bytes) (server : TranscriptionServer) : Bytes :=
  (server.deltas.filter fun d => d.1 = itemId).flatMap Prod.snd

end TranscriptionServer

/-! ## The session -/

/-- It starts out connected. The list of a thread is what is left of the call it is in. -/
structure RealtimeSession (ρ : Type) where
  client : RealtimeSttClient ρ := { state := .ready, channel := true }
  pool : TokenPool := {}
  server : TranscriptionServer := {}
  callers : Nat → List AfterLock := fun _ => []
  dispatcher : List AfterLock := []
  nextUtterance : UtteranceId := 0
  sent : List ClientMessage := []
  called : List Callback := []

inductive SessionAction
  | beginUtterance (thread : Nat) (turn : TurnId) (cancel : Option TokenRef)
      (cb : UtteranceCallbacks)
  | pushAudio (thread : Nat) (samples : List Sample)
  | endUtterance (thread : Nat)
  /-- A calling thread does what is next after the lock. -/
  | caller (thread : Nat)
  | report (e : ServerEvent)
  /-- The data channel's thread does what is next after the lock. -/
  | dispatcher
  | makeToken
  | cancelToken (tok : TokenRef)
  | connectionLost
  | stop
deriving DecidableEq, Repr

namespace RealtimeSession

variable {ρ : Type}

/-- A thread that is in no call enters one. -/
def enter (thread : Nat) (r : RealtimeSttClient ρ × List AfterLock) (s : RealtimeSession ρ) :
    Option (RealtimeSession ρ) :=
  if s.callers thread = [] then
    some { s with client := r.1, callers := Function.update s.callers thread r.2 }
  else none

def perform (x : AfterLock) (s : RealtimeSession ρ) : RealtimeSession ρ :=
  match x with
  | .send m => { s with sent := s.sent ++ [m], server := s.server.receive m }
  | .call c => { s with called := s.called ++ [c] }

def step (soxr : Soxr ρ) (s : RealtimeSession ρ) : SessionAction → Option (RealtimeSession ρ)
  | .beginUtterance thread turn cancel cb =>
      { s with nextUtterance := s.nextUtterance + 1 }.enter thread
        (s.client.beginUtterance soxr turn cancel { cb with owner := s.nextUtterance })
  | .pushAudio thread samples => s.enter thread (s.client.pushAudio soxr s.pool samples)
  | .endUtterance thread => s.enter thread (s.client.endUtterance soxr)
  | .caller thread =>
      match s.callers thread with
      | x :: rest => some (perform x { s with callers := Function.update s.callers thread rest })
      | [] => none
  | .report e =>
      if s.dispatcher = [] then
        (s.server.report e).map fun server =>
          { s with
            server := server
            client := (s.client.dispatch s.pool e).1
            dispatcher := (s.client.dispatch s.pool e).2 }
      else none
  | .dispatcher =>
      match s.dispatcher with
      | x :: rest => some (perform x { s with dispatcher := rest })
      | [] => none
  | .makeToken => some { s with pool := s.pool.make.2 }
  | .cancelToken tok => some { s with pool := s.pool.cancel tok }
  | .connectionLost => some { s with client := s.client.connectionLost }
  | .stop => some { s with client := s.client.stop }

end RealtimeSession

/-! ## What is left of a call -/

/-- The utterances whose commits are still to be sent. -/
def commitsIn (after : List AfterLock) : List UtteranceId :=
  after.filterMap fun
    | .send (.commit owner) => some owner
    | _ => none

/-- The calls that are still to be made. -/
def callsIn (after : List AfterLock) : List Callback :=
  after.filterMap fun
    | .call c => some c
    | .send _ => none

/-- The utterance whose final transcript a callback brings. -/
def Callback.finalOf : Callback → Option UtteranceId
  | .onFinal owner _ => some owner
  | _ => none

@[simp] theorem commitsIn_nil : commitsIn [] = [] := rfl

@[simp] theorem callsIn_nil : callsIn [] = [] := rfl

@[simp] theorem commitsIn_commit (owner : UtteranceId) (after : List AfterLock) :
    commitsIn (.send (.commit owner) :: after) = owner :: commitsIn after := rfl

@[simp] theorem commitsIn_clear (owner : UtteranceId) (after : List AfterLock) :
    commitsIn (.send (.clear owner) :: after) = commitsIn after := rfl

@[simp] theorem commitsIn_append (samples : List Sample) (after : List AfterLock) :
    commitsIn (.send (.append samples) :: after) = commitsIn after := rfl

@[simp] theorem commitsIn_call (c : Callback) (after : List AfterLock) :
    commitsIn (.call c :: after) = commitsIn after := rfl

@[simp] theorem callsIn_send (m : ClientMessage) (after : List AfterLock) :
    callsIn (.send m :: after) = callsIn after := rfl

@[simp] theorem callsIn_call (c : Callback) (after : List AfterLock) :
    callsIn (.call c :: after) = c :: callsIn after := rfl

/-! ## What a call does to the active utterance -/

namespace RealtimeSttClient

variable {ρ : Type}

/-- The active utterance is the same, and it has a resampler as before. -/
structure SameUtterance (c c' : RealtimeSttClient ρ) : Prop where
  active : c'.active = c.active
  cb : c'.activeCb = c.activeCb
  cancel : c'.activeCancel = c.activeCancel
  itemId : c'.activeItemId = c.activeItemId
  text : c'.partialText = c.partialText
  resampler : c'.resampler.isSome = c.resampler.isSome

theorem SameUtterance.refl (c : RealtimeSttClient ρ) : SameUtterance c c :=
  ⟨rfl, rfl, rfl, rfl, rfl, rfl⟩

/-- A new utterance, or a client that is not ready. -/
theorem beginUtterance_cases (soxr : Soxr ρ) (turn : TurnId) (cancel : Option TokenRef)
    (cb : UtteranceCallbacks) (c : RealtimeSttClient ρ) :
    let r := c.beginUtterance soxr turn cancel cb
    commitsIn r.2 = [] ∧ (∀ call ∈ callsIn r.2, ∃ u err, call = .onError u err) ∧
      (r.1 = c ∨
        r.1.active = true ∧ r.1.activeCb = cb ∧ r.1.activeItemId = [] ∧ r.1.partialText = [] ∧
          r.1.resampler.isSome = true) := by
  simp only [beginUtterance]
  split
  · refine ⟨?_, ?_, .inl rfl⟩
    · split <;> rfl
    · split
      · intro call hcall
        simp only [callsIn_call, callsIn_nil, List.mem_singleton] at hcall
        exact ⟨_, _, hcall⟩
      · intro call hcall
        cases hcall
  · refine ⟨?_, ?_, .inr ⟨rfl, rfl, rfl, rfl, rfl⟩⟩
    · split <;> rfl
    · split
      · intro call hcall
        cases hcall
      · intro call hcall
        cases hcall

theorem pushAudio_cases (soxr : Soxr ρ) (pool : TokenPool) (samples : List Sample)
    (c : RealtimeSttClient ρ) :
    let r := c.pushAudio soxr pool samples
    commitsIn r.2 = [] ∧ callsIn r.2 = [] ∧ SameUtterance c r.1 := by
  simp only [pushAudio]
  split
  · exact ⟨rfl, rfl, .refl c⟩
  next r hr =>
    have hsome : c.resampler.isSome = true := by
      unfold listening at hr
      split at hr
      · cases hr
      · rw [hr]
        rfl
    refine ⟨?_, ?_, rfl, rfl, rfl, rfl, rfl, hsome.symm⟩
    · split <;> rfl
    · split <;> rfl

/-- The one commit of an utterance goes with its resampler. -/
theorem endUtterance_cases (soxr : Soxr ρ) (c : RealtimeSttClient ρ) :
    let r := c.endUtterance soxr
    callsIn r.2 = [] ∧
      (r = (c, []) ∨
        c.active = true ∧ c.resampler.isSome = true ∧ r.1 = { c with resampler := none } ∧
          (commitsIn r.2 = [] ∨ commitsIn r.2 = [c.activeCb.owner])) := by
  simp only [endUtterance]
  split
  · exact ⟨rfl, .inl rfl⟩
  next hactive =>
    split
    · exact ⟨rfl, .inl rfl⟩
    next tail htail =>
      obtain ⟨r, hr, -⟩ := Option.bind_eq_some_iff.mp htail
      refine ⟨?_, .inr ⟨by simpa using hactive, by rw [hr]; rfl, rfl, ?_⟩⟩
      · split
        · rfl
        · split <;> rfl
      · split
        · exact .inl rfl
        · split
          · exact .inr rfl
          · exact .inr rfl

end RealtimeSttClient

end Acva.Stt

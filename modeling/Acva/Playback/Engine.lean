import Acva.Core.Runs
import Acva.Event.BoundedQueue
import Acva.Playback.Queue

/-! # The playback engine

The audio callback fills a buffer from the queue. It reads the active turn and
the queue several times on its way, and other threads move in between, so the
callback is a machine of its own: one step per read of what it shares. Time, and
with it the barge-in timer, is left out. Three records are kept beside the
source's fields: what was copied into the buffers, the buffers the device got,
and the buffers the loopback sink got.
-/

namespace Acva.Playback

open Acva.Bus Acva.Runs

def kPostboxCapacity : Nat := 256

/-- Where the callback stands; `out` is the buffer up to `filled`. -/
inductive RenderPc
  /-- No buffer is being filled. -/
  | idle
  /-- At the head of the loop. -/
  | loop (frames : Nat) (out : List Sample)
  /-- The active turn is read, and the prefill gate comes next. -/
  | gate (frames : Nat) (out : List Sample) (active : TurnId)
  /-- The gate was open, and the dequeue comes next. -/
  | pop (frames : Nat) (out : List Sample) (active : TurnId)
deriving DecidableEq, Repr

/-- A sample that a callback has copied, and the chunk's turn. -/
structure Written where
  call : Nat
  turn : TurnId
  sample : Sample
deriving DecidableEq, Repr

structure PlaybackEngine where
  prefillTargetSamples : Nat := 0
  loopbackSink : Bool := true
  current : AudioChunk := {}
  pos : Nat := 0
  primedTurn : TurnId := kNoTurn
  postbox : BoundedQueue PlaybackFinished :=
    { capacity := kPostboxCapacity, policy := .dropOldest }
  chunksPlayed : Nat := 0
  underruns : Nat := 0
  framesPlayed : Nat := 0
  prefillSilenceFrames : Nat := 0
  pc : RenderPc := .idle
  calls : Nat := 0
  posted : List PlaybackFinished := []
  written : List Written := []
  emitted : List (List Sample) := []
  tapped : List (List Sample) := []
deriving DecidableEq, Repr

namespace PlaybackEngine

/-- The end of a sentence that the current chunk marks. -/
def currentMark (e : PlaybackEngine) : List PlaybackFinished :=
  if e.current.turn ≠ kNoTurn ∧ e.current.endOfSentence = true then
    [{ turn := e.current.turn, seq := e.current.seq }]
  else []

/-- What is left of the current chunk. -/
def leftover (e : PlaybackEngine) : List Sample := e.current.samples.drop e.pos

/-- A chunk was consumed: count it, post its mark, and drop it. The postbox never waits. -/
def retire (e : PlaybackEngine) : PlaybackEngine :=
  if e.current.turn ≠ kNoTurn then
    { e with
      chunksPlayed := if e.current.samples = [] then e.chunksPlayed else e.chunksPlayed + 1
      posted := e.posted ++ e.currentMark
      postbox := e.currentMark.foldl (fun box p => ((box.push p).map (·.2)).getD box) e.postbox
      current := {}
      pos := 0 }
  else e

def gateOpen (active : TurnId) (pending : Nat) (e : PlaybackEngine) : Bool :=
  !(0 < e.prefillTargetSamples && active ≠ kNoTurn && e.primedTurn ≠ active) ||
    e.prefillTargetSamples ≤ pending

/-- Past the gate; it marks the turn as primed where it has looked at the queue. -/
def prime (active : TurnId) (e : PlaybackEngine) : PlaybackEngine :=
  if 0 < e.prefillTargetSamples ∧ active ≠ kNoTurn then { e with primedTurn := active } else e

/-- The rest of the buffer is silence, and the callback returns without the tap. -/
def fallSilent (frames : Nat) (out : List Sample) (e : PlaybackEngine) : PlaybackEngine :=
  { e with
    emitted := e.emitted ++ [out ++ List.replicate (frames - out.length) 0]
    pc := .idle }

/-- The buffer is full: the counter, and the tap if there is one. -/
def finish (frames : Nat) (out : List Sample) (e : PlaybackEngine) : PlaybackEngine :=
  { e with
    framesPlayed := e.framesPlayed + frames
    emitted := e.emitted ++ [out]
    tapped := if e.loopbackSink = true then e.tapped ++ [out] else e.tapped
    pc := .idle }

/-- `memcpy` of what fits. -/
def copy (frames : Nat) (out : List Sample) (e : PlaybackEngine) : PlaybackEngine :=
  let samples := e.leftover.take (frames - out.length)
  { e with
    pos := e.pos + samples.length
    written := e.written ++
      samples.map fun x => { call := e.calls, turn := e.current.turn, sample := x }
    pc := .loop frames (out ++ samples) }

def begin (frames : Nat) (e : PlaybackEngine) : PlaybackEngine :=
  { e with calls := e.calls + 1, pc := .loop frames [] }

/-- One step of the callback against what it shares. -/
def step (active : TurnId) (q : PlaybackQueue) (e : PlaybackEngine) :
    Option (PlaybackEngine × PlaybackQueue) :=
  match e.pc with
  | .idle => none
  | .loop frames out =>
      if frames ≤ out.length then some (e.finish frames out, q)
      else if e.current.samples.length ≤ e.pos then
        some ({ e.retire with pc := .gate frames out active }, q)
      else some (e.copy frames out, q)
  | .gate frames out active =>
      if e.gateOpen active (q.pendingSamplesFor active) = true then
        some ({ e.prime active with pc := .pop frames out active }, q)
      else
        some ({ e.fallSilent frames out with
          prefillSilenceFrames := e.prefillSilenceFrames + (frames - out.length) }, q)
  | .pop frames out active =>
      match q.dequeueActive active with
      | (none, q) => some ({ e.fallSilent frames out with underruns := e.underruns + 1 }, q)
      | (some chunk, q) =>
          some ({ e with current := chunk, pos := 0, pc := .loop frames out }, q)

end PlaybackEngine

/-- The engine among the threads that share the queue and the active turn with it. -/
structure AudioOutput where
  engine : PlaybackEngine := {}
  queue : PlaybackQueue := {}
  activeTurn : TurnId := kNoTurn
  relayed : List PlaybackFinished := []
deriving DecidableEq, Repr

inductive OutputAction
  /-- The device asks for a buffer. -/
  | render (frames : Nat)
  /-- The callback moves. -/
  | audio
  | enqueue (chunk : AudioChunk)
  | invalidateBefore (next : TurnId)
  | clear
  | setActive (turn : TurnId)
  /-- The publisher thread takes an entry off the postbox. -/
  | relay
deriving DecidableEq, Repr

namespace AudioOutput

/-- One step of the callback. -/
def audio (p : AudioOutput) : Option AudioOutput :=
  (p.engine.step p.activeTurn p.queue).map fun (engine, queue) =>
    { p with engine := engine, queue := queue }

def step (p : AudioOutput) : OutputAction → Option AudioOutput
  | .render frames =>
      if p.engine.pc = .idle then some { p with engine := p.engine.begin frames } else none
  | .audio => p.audio
  | .enqueue chunk => some { p with queue := (p.queue.enqueue chunk).2 }
  | .invalidateBefore next => some { p with queue := (p.queue.invalidateBefore next).2 }
  | .clear => some { p with queue := p.queue.clear.2 }
  | .setActive turn => some { p with activeTurn := turn }
  | .relay =>
      let (entry, postbox) := p.engine.postbox.tryPop
      some { p with
        engine := { p.engine with postbox := postbox }
        relayed := p.relayed ++ entry.toList }

end AudioOutput

/-! ## The cases of a step -/

/-- What one step of the callback does, by where it stands. -/
inductive EngineStep (active : TurnId) (q : PlaybackQueue) (e : PlaybackEngine) :
    PlaybackEngine → PlaybackQueue → Prop
  | finish (frames : Nat) (out : List Sample) (hpc : e.pc = .loop frames out)
      (hfull : frames ≤ out.length) : EngineStep active q e (e.finish frames out) q
  | retire (frames : Nat) (out : List Sample) (hpc : e.pc = .loop frames out)
      (hroom : out.length < frames) (hend : e.leftover = []) :
      EngineStep active q e { e.retire with pc := .gate frames out active } q
  | copy (frames : Nat) (out : List Sample) (hpc : e.pc = .loop frames out)
      (hroom : out.length < frames) (hmore : e.leftover ≠ []) :
      EngineStep active q e (e.copy frames out) q
  | pass (frames : Nat) (out : List Sample) (turn : TurnId) (hpc : e.pc = .gate frames out turn)
      (hgate : e.gateOpen turn (q.pendingSamplesFor turn) = true) :
      EngineStep active q e { e.prime turn with pc := .pop frames out turn } q
  | hold (frames : Nat) (out : List Sample) (turn : TurnId) (hpc : e.pc = .gate frames out turn)
      (hgate : e.gateOpen turn (q.pendingSamplesFor turn) = false) :
      EngineStep active q e { e.fallSilent frames out with
        prefillSilenceFrames := e.prefillSilenceFrames + (frames - out.length) } q
  | underrun (frames : Nat) (out : List Sample) (turn : TurnId) (q' : PlaybackQueue)
      (hpc : e.pc = .pop frames out turn) (hpop : q.dequeueActive turn = (none, q')) :
      EngineStep active q e { e.fallSilent frames out with underruns := e.underruns + 1 } q'
  | take (frames : Nat) (out : List Sample) (turn : TurnId) (chunk : AudioChunk)
      (q' : PlaybackQueue) (hpc : e.pc = .pop frames out turn)
      (hpop : q.dequeueActive turn = (some chunk, q')) :
      EngineStep active q e { e with current := chunk, pos := 0, pc := .loop frames out } q'

theorem PlaybackEngine.step_eq_some {active : TurnId} {q q' : PlaybackQueue}
    {e e' : PlaybackEngine} (h : e.step active q = some (e', q')) :
    EngineStep active q e e' q' := by
  unfold step at h
  split at h
  · cases h
  next frames out hpc =>
    split at h
    next hfull =>
      cases h
      exact .finish frames out hpc hfull
    next hfull =>
      split at h
      next hend =>
        cases h
        exact .retire frames out hpc (Nat.not_le.mp hfull) (List.drop_eq_nil_of_le hend)
      next hend =>
        cases h
        exact .copy frames out hpc (Nat.not_le.mp hfull) (fun hnil =>
          hend (List.drop_eq_nil_iff.mp hnil))
  next frames out turn hpc =>
    split at h
    next hgate =>
      cases h
      exact .pass frames out turn hpc hgate
    next hgate =>
      cases h
      exact .hold frames out turn hpc (by simpa using hgate)
  next frames out turn hpc =>
    split at h
    next queue hpop =>
      cases h
      exact .underrun frames out turn q' hpc hpop
    next chunk queue hpop =>
      cases h
      exact .take frames out turn chunk q' hpc hpop

theorem AudioOutput.audio_eq_some {p p' : AudioOutput} (h : p.audio = some p') :
    ∃ engine queue, EngineStep p.activeTurn p.queue p.engine engine queue ∧
      p' = { p with engine := engine, queue := queue } := by
  simp only [audio, Option.map_eq_some_iff] at h
  obtain ⟨⟨engine, queue⟩, hstep, rfl⟩ := h
  exact ⟨engine, queue, PlaybackEngine.step_eq_some hstep, rfl⟩

/-- The callback can always move until it has returned. -/
theorem AudioOutput.audio_eq_none {p : AudioOutput} (h : p.audio = none) :
    p.engine.pc = .idle := by
  simp only [audio, Option.map_eq_none_iff] at h
  unfold PlaybackEngine.step at h
  split at h
  next hpc => exact hpc
  next =>
    split at h
    · cases h
    · split at h <;> cases h
  next => split at h <;> cases h
  next => split at h <;> cases h

namespace PlaybackEngine

/-! ## What the operations touch -/

/-- A retired chunk has posted its mark, and is gone. -/
structure Retired (e e' : PlaybackEngine) : Prop where
  posted : e'.posted = e.posted ++ e.currentMark
  current : e'.current = {} ∨ e'.current = e.current ∧ e.current.turn = kNoTurn
  leftover : e.leftover = [] → e'.leftover = []
  written : e'.written = e.written
  primedTurn : e'.primedTurn = e.primedTurn
  calls : e'.calls = e.calls
  prefillTargetSamples : e'.prefillTargetSamples = e.prefillTargetSamples
  emitted : e'.emitted = e.emitted
  tapped : e'.tapped = e.tapped
  loopbackSink : e'.loopbackSink = e.loopbackSink

theorem retire_retired (e : PlaybackEngine) : Retired e e.retire := by
  unfold retire
  split
  · exact ⟨rfl, .inl rfl, fun _ => rfl, rfl, rfl, rfl, rfl, rfl, rfl, rfl⟩
  next hturn =>
    have hnone : e.currentMark = [] := if_neg fun h => hturn h.1
    refine ⟨?_, .inr ⟨rfl, not_not.mp hturn⟩, id, rfl, rfl, rfl, rfl, rfl, rfl, rfl⟩
    rw [hnone, List.append_nil]

theorem Retired.currentMark {e e' : PlaybackEngine} (h : Retired e e') : e'.currentMark = [] := by
  rcases h.current with hcurrent | ⟨hcurrent, hturn⟩
  · simp [PlaybackEngine.currentMark, hcurrent]
  · simp [PlaybackEngine.currentMark, hcurrent, hturn]

theorem copy_leftover (frames : Nat) (out : List Sample) (e : PlaybackEngine) :
    (e.copy frames out).leftover = e.leftover.drop (frames - out.length) := by
  show e.current.samples.drop (e.pos + (e.leftover.take (frames - out.length)).length) = _
  rw [← List.drop_drop]
  show e.leftover.drop (e.leftover.take (frames - out.length)).length = _
  rw [List.length_take]
  rcases Nat.le_total (frames - out.length) e.leftover.length with h | h
  · rw [Nat.min_eq_left h]
  · rw [Nat.min_eq_right h, List.drop_length, List.drop_eq_nil_of_le h]

theorem copy_written (frames : Nat) (out : List Sample) (e : PlaybackEngine) :
    (e.copy frames out).written.map (·.sample) =
      e.written.map (·.sample) ++ e.leftover.take (frames - out.length) := by
  simp [copy, Function.comp_def]

/-- Past the gate nothing but the primed turn is new. -/
theorem prime_eq (turn : TurnId) (e : PlaybackEngine) :
    e.prime turn = { e with primedTurn := (e.prime turn).primedTurn } := by
  unfold prime
  split <;> rfl

end PlaybackEngine

end Acva.Playback

import Acva.Audio.Resampler
import Acva.Dialogue.CancellationToken
import Mathlib.Logic.Function.Basic

/-! # The TTS bridge

From the sentences of a reply to the playback queue. The subscriber thread
handles the events; the I/O thread synthesizes one sentence after the other. A
step is what one of them does between two points where the other can move: one
locked section, one look at a token, one operation of the queue. Log lines, the
texts of errors and the self-listen copy are left out.
-/

namespace Acva.Dialogue

open Acva.Audio Acva.Playback

/-! ## The machine -/

structure Job where
  sentence : LlmSentence
  cancel : TokenRef
deriving DecidableEq, Repr

/-- The locals of one request; no resampler is the pass-through. -/
structure Synth (ρ : Type) where
  resampler : Option ρ := none
  gotFormat : Bool := false
  gotError : Bool := false
deriving DecidableEq, Repr

namespace Synth

variable {ρ : Type}

def onFormat (soxr : Soxr ρ) (deviceRate : Nat) (rate : Int) (s : Synth ρ) : Synth ρ :=
  if rate ≤ 0 then { s with gotError := true }
  else
    { s with
      resampler :=
        if rate.toNat = deviceRate then none else some (soxr.create rate.toNat deviceRate)
      gotFormat := true }

/-- The samples at the device's rate. -/
def resample (soxr : Soxr ρ) (samples : List Sample) (s : Synth ρ) : List Sample × Synth ρ :=
  match s.resampler with
  | some r =>
      let (out, r) := soxr.resample samples r
      (out, { s with resampler := some r })
  | none => (samples, s)

/-- What the flush leaves over; an exception leaves nothing. -/
def tail (soxr : Soxr ρ) (s : Synth ρ) : List Sample :=
  match s.resampler, s.gotFormat with
  | some r, true => (soxr.flush r).getD []
  | _, _ => []

end Synth

/-- Where the I/O thread stands. -/
inductive TtsIoPc (ρ : Type)
  /-- It waits for a job. -/
  | idle
  /-- A job is in flight, and `run_one` looks at its token next. -/
  | taken (job : Job)
  /-- The token was not cancelled. -/
  | starting (job : Job)
  /-- The submit function has the thread, and calls back as it likes. -/
  | submitting (job : Job) (synth : Synth ρ)
  /-- In `on_audio`, past the look at the token. -/
  | enqueuing (job : Job) (synth : Synth ρ) (samples : List Sample)
  /-- The submit function has returned. -/
  | submitted (job : Job) (synth : Synth ρ)
  /-- Past the look at the token, about to poll for room for the end of the sentence. -/
  | enqueuingEnd (job : Job) (gotError : Bool) (tail : List Sample)
  /-- There was no room. -/
  | waiting (job : Job) (gotError : Bool) (tail : List Sample)
  /-- The end is enqueued or given up. -/
  | closing (job : Job) (gotError : Bool)
  /-- `run_one` has returned. -/
  | returned
  | exited
deriving DecidableEq, Repr

/-- Where the subscriber thread stands; the list is what is left of `to_cancel`. -/
inductive HandlerPc
  | idle
  | cancelling (turn : TurnId) (toCancel : List TokenRef)
deriving DecidableEq, Repr

structure TtsBridge (ρ : Type) where
  deviceRate : Nat := 0
  pool : TokenPool := {}
  tokens : TurnId → Option TokenRef := fun _ => none
  pending : List Job := []
  inFlight : Option TokenRef := none
  stopping : Bool := false
  subscribed : Bool := true
  synthesized : Nat := 0
  cancelled : Nat := 0
  errored : Nat := 0
  handler : HandlerPc := .idle
  io : TtsIoPc ρ := .idle
  submitted : List Job := []
  published : List Event := []

/-- What the submit function may do next. -/
inductive SubmitEvent
  | onFormat (rate : Int)
  | onAudio (samples : List Sample)
  | onFinished
  | onError
  | returns
deriving DecidableEq, Repr

def audioChunk (job : Job) (samples : List Sample) : AudioChunk where
  turn := job.sentence.turn
  seq := job.sentence.seq
  samples := samples

def endChunk (job : Job) (tail : List Sample) : AudioChunk where
  turn := job.sentence.turn
  seq := job.sentence.seq
  samples := tail
  endOfSentence := true

def ttsAudioChunk (job : Job) (samples : List Sample) : TtsAudioChunk where
  turn := job.sentence.turn
  seq := job.sentence.seq
  bytes := samples.length * 2

namespace TtsBridge

variable {ρ : Type}

/-- `tokens_[turn] = make_shared`, the token included. -/
def mintToken (turn : TurnId) (b : TtsBridge ρ) : TokenRef × TtsBridge ρ :=
  (b.pool.make.1, { b with
    pool := b.pool.make.2
    tokens := Function.update b.tokens turn (some b.pool.make.1) })

def tokenFor (turn : TurnId) (b : TtsBridge ρ) : TokenRef × TtsBridge ρ :=
  match b.tokens turn with
  | none => b.mintToken turn
  | some tok => (tok, b)

/-! ## The subscriber thread -/

def onLlmStarted (turn : TurnId) (b : TtsBridge ρ) : TtsBridge ρ := (b.mintToken turn).2

def onLlmSentence (sentence : LlmSentence) (b : TtsBridge ρ) : TtsBridge ρ :=
  let (tok, b) := b.tokenFor sentence.turn
  if b.pool.isCancelled tok = true then { b with cancelled := b.cancelled + 1 }
  else { b with pending := b.pending ++ [{ sentence := sentence, cancel := tok }] }

def onLlmFinished (e : LlmFinished) (b : TtsBridge ρ) : TtsBridge ρ :=
  { b with tokens := Function.update b.tokens e.turn none }

/-- The token to cancel. A turn without one gets a token that is cancelled already. -/
def tokenToCancel (turn : TurnId) (b : TtsBridge ρ) : List TokenRef × TtsBridge ρ :=
  match b.tokens turn with
  | some tok => ([tok], b)
  | none =>
      let (tok, b) := b.mintToken turn
      ([], { b with pool := b.pool.cancel tok })

/-- The locked section. The tokens are cancelled and the queue is cleared outside of it. -/
def onUserInterrupted (e : UserInterrupted) (b : TtsBridge ρ) : TtsBridge ρ :=
  let (toCancel, b) := b.tokenToCancel e.turn
  let kept := b.pending.filter fun j => j.sentence.turn ≠ e.turn
  { b with
    cancelled := b.cancelled + (b.pending.length - kept.length)
    pending := kept
    handler := .cancelling e.turn (toCancel ++ b.inFlight.toList) }

/-- The subscriber thread takes an event. -/
def onEvent (e : Event) (b : TtsBridge ρ) : Option (TtsBridge ρ) :=
  if b.subscribed = true ∧ b.handler = .idle then
    match e with
    | .llmStarted e => some (b.onLlmStarted e.turn)
    | .llmSentence e => some (b.onLlmSentence e)
    | .llmFinished e => some (b.onLlmFinished e)
    | .userInterrupted e => some (b.onUserInterrupted e)
    | _ => some b
  else none

/-- The rest of `on_user_interrupted`; it returns with the clear. -/
def handlerStep (q : PlaybackQueue) (b : TtsBridge ρ) : Option (TtsBridge ρ × PlaybackQueue) :=
  match b.handler with
  | .idle => none
  | .cancelling turn (tok :: rest) =>
      some ({ b with pool := b.pool.cancel tok, handler := .cancelling turn rest }, q)
  | .cancelling _ [] => some ({ b with handler := .idle }, q.clear.2)

/-! ## The I/O thread -/

/-- `io_loop` and `run_one` up to the submit function and after it. -/
def ioStep (soxr : Soxr ρ) (q : PlaybackQueue) (b : TtsBridge ρ) :
    Option (TtsBridge ρ × PlaybackQueue) :=
  match b.io with
  | .idle =>
      match b.pending with
      | job :: rest =>
          some ({ b with pending := rest, inFlight := some job.cancel, io := .taken job }, q)
      | [] => if b.stopping = true then some ({ b with io := .exited }, q) else none
  | .taken job =>
      if b.pool.isCancelled job.cancel = true then
        some ({ b with cancelled := b.cancelled + 1, io := .returned }, q)
      else some ({ b with io := .starting job }, q)
  | .starting job =>
      let e : TtsStarted := { turn := job.sentence.turn, seq := job.sentence.seq }
      some ({ b with
        published := b.published ++ [.ttsStarted e]
        submitted := b.submitted ++ [job]
        io := .submitting job {} }, q)
  | .submitting _ _ => none
  | .enqueuing job synth samples =>
      let (ok, q) := q.enqueue (audioChunk job samples)
      some ({ b with
        published := b.published ++
          if ok = true then [.ttsAudioChunk (ttsAudioChunk job samples)] else []
        io := .submitting job synth }, q)
  | .submitted job synth =>
      if b.pool.isCancelled job.cancel = true then
        some ({ b with io := .closing job synth.gotError }, q)
      else some ({ b with io := .enqueuingEnd job synth.gotError (synth.tail soxr) }, q)
  | .enqueuingEnd job gotError tail =>
      let (ok, q) := q.enqueuePoll (endChunk job tail)
      if ok = true then
        some ({ b with
          published := b.published ++
            if tail ≠ [] then [.ttsAudioChunk (ttsAudioChunk job tail)] else []
          io := .closing job gotError }, q)
      else some ({ b with io := .waiting job gotError tail }, q)
  | .waiting job gotError tail =>
      if b.pool.isCancelled job.cancel = true then
        some ({ b with io := .closing job gotError }, q)
      else some ({ b with io := .enqueuingEnd job gotError tail }, q)
  | .closing job gotError =>
      if b.pool.isCancelled job.cancel = true then
        some ({ b with cancelled := b.cancelled + 1, io := .returned }, q)
      else if gotError = true then some ({ b with errored := b.errored + 1, io := .returned }, q)
      else
        let e : TtsFinished := { turn := job.sentence.turn, seq := job.sentence.seq }
        some ({ b with
          synthesized := b.synthesized + 1
          published := b.published ++ [.ttsFinished e]
          io := .returned }, q)
  | .returned => some ({ b with inFlight := none, io := .idle }, q)
  | .exited => none

/-- `on_audio` up to the enqueue. -/
def onAudio (soxr : Soxr ρ) (job : Job) (synth : Synth ρ) (samples : List Sample)
    (b : TtsBridge ρ) : TtsBridge ρ :=
  if synth.gotError = true ∨ b.pool.isCancelled job.cancel = true then b
  else
    let (out, synth) := synth.resample soxr samples
    { b with io := if out = [] then .submitting job synth else .enqueuing job synth out }

/-- The submit function calls back or returns. -/
def onSubmit (soxr : Soxr ρ) (e : SubmitEvent) (b : TtsBridge ρ) : Option (TtsBridge ρ) :=
  match b.io with
  | .submitting job synth =>
      match e with
      | .onFormat rate =>
          some { b with io := .submitting job (synth.onFormat soxr b.deviceRate rate) }
      | .onAudio samples => some (b.onAudio soxr job synth samples)
      | .onFinished => some b
      | .onError => some { b with io := .submitting job { synth with gotError := true } }
      | .returns => some { b with io := .submitted job synth }
  | _ => none

/-! ## `stop` -/

/-- The subscription is gone once its handler has returned. -/
def unsubscribe (b : TtsBridge ρ) : Option (TtsBridge ρ) :=
  if b.handler = .idle then some { b with subscribed := false } else none

def stop (b : TtsBridge ρ) : Option (TtsBridge ρ) :=
  if b.subscribed = true then none
  else
    some { b with
      pool := b.inFlight.toList.foldl (fun pool tok => pool.cancel tok) b.pool
      stopping := true }

end TtsBridge

end Acva.Dialogue

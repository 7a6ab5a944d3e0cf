import Acva.Playback.Queue
import Mathlib.Algebra.Ring.Int.Defs

/-! # The utterance buffer

A rolling pre-buffer until speech starts, and from then on the utterance itself.
`size_t` arithmetic on durations wraps at 64 bits, so it is written out. The
weak pointers to the issued slices are references that expire when the last
consumer lets go.
-/

namespace Acva.Audio

open Acva.Playback

/-- A captured buffer is mono 16-bit audio. -/
structure AudioSlice where
  samples : List Sample
  sampleRate : Nat
  startedAt : TimePoint
  endedAt : TimePoint
deriving DecidableEq, Repr

/-- In milliseconds. -/
def AudioSlice.duration (s : AudioSlice) : Nat :=
  if s.sampleRate = 0 then 0 else s.samples.length * 1000 / s.sampleRate

def nsPerMs : Int := 1000000

/-- `static_cast<size_t>` of a signed count. -/
def toSize (i : Int) : Nat := (i % 2 ^ 64).toNat

/-- `sample_rate * ms / 1000` in `size_t`. -/
def samplesIn (sampleRate : Nat) (ms : Int) : Nat := sampleRate * toSize ms % 2 ^ 64 / 1000

/-- A `weak_ptr` to an issued slice. -/
abbrev SliceRef := Nat

structure UtteranceBuffer where
  sampleRate : Nat := 16000
  prePaddingMs : Int := 300
  postPaddingMs : Int := 100
  maxDurationMs : Int := 60000
  maxInFlight : Nat := 3
  preBuffer : List Sample := []
  recording : Bool := false
  activeSamples : List Sample := []
  activeStartedAt : TimePoint := 0
  activeSpeechStartedAt : TimePoint := 0
  inFlight : List SliceRef := []
  drops : Nat := 0
  nextSlice : SliceRef := 0
  expired : List SliceRef := []
deriving DecidableEq, Repr

namespace UtteranceBuffer

def prePadCapacity (b : UtteranceBuffer) : Nat := samplesIn b.sampleRate b.prePaddingMs

def capSamples (b : UtteranceBuffer) : Nat := samplesIn b.sampleRate b.maxDurationMs

/-- The oldest samples go first. -/
def trimPreBuffer (b : UtteranceBuffer) : UtteranceBuffer :=
  { b with preBuffer := b.preBuffer.drop (b.preBuffer.length - b.prePadCapacity) }

/-- Drop what is over the cap from the head and move the start time along. -/
def truncateHead (b : UtteranceBuffer) : UtteranceBuffer :=
  if 0 < b.capSamples ∧ b.capSamples < b.activeSamples.length then
    let drop := b.activeSamples.length - b.capSamples
    { b with
      activeSamples := b.activeSamples.drop drop
      activeStartedAt := b.activeStartedAt + (drop * 1000 / b.sampleRate : Nat) * nsPerMs }
  else b

def append (samples : List Sample) (b : UtteranceBuffer) : UtteranceBuffer :=
  if samples = [] then b
  else if b.recording = true then
    truncateHead { b with activeSamples := b.activeSamples ++ samples }
  else trimPreBuffer { b with preBuffer := b.preBuffer ++ samples }

/-- A recording that was not ended is dropped. -/
def onSpeechStarted (prePadStart speechStartedAt : TimePoint) (b : UtteranceBuffer) :
    UtteranceBuffer :=
  { b with
    recording := true
    activeSpeechStartedAt := speechStartedAt
    activeStartedAt := prePadStart
    activeSamples := b.preBuffer
    preBuffer := [] }

/-- The tail is cut to the post-padding. -/
def trimTail (target : Nat) (samples : List Sample) : List Sample :=
  if 0 < target ∧ target < samples.length then samples.take target else samples

def targetSamples (speechEndedAt : TimePoint) (b : UtteranceBuffer) : Nat :=
  samplesIn b.sampleRate
    ((speechEndedAt - b.activeStartedAt).tdiv nsPerMs + b.postPaddingMs)

/-- Too many in flight: the tracker forgets the oldest. -/
def detachOldest (b : UtteranceBuffer) : UtteranceBuffer :=
  if b.maxInFlight ≤ b.inFlight.length then
    { b with inFlight := b.inFlight.tail, drops := b.drops + 1 }
  else b

/-- Enter the next slice in the tracker, once the expired ones are pruned. -/
def track (b : UtteranceBuffer) : UtteranceBuffer :=
  let b := detachOldest { b with inFlight := b.inFlight.filter fun ref => ref ∉ b.expired }
  { b with inFlight := b.inFlight ++ [b.nextSlice], nextSlice := b.nextSlice + 1 }

def onSpeechEnded (speechEndedAt : TimePoint) (b : UtteranceBuffer) :
    UtteranceBuffer × Option AudioSlice :=
  if b.recording = true then
    let slice : AudioSlice := {
      samples := trimTail (b.targetSamples speechEndedAt) b.activeSamples
      sampleRate := b.sampleRate
      startedAt := b.activeStartedAt
      endedAt := speechEndedAt }
    (track { b with activeSamples := [], recording := false }, some slice)
  else (b, none)

def abortActive (b : UtteranceBuffer) : UtteranceBuffer :=
  if b.recording = true then
    { b with
      activeSamples := []
      recording := false
      activeStartedAt := 0
      activeSpeechStartedAt := 0 }
  else b

/-- A consumer lets go of its slice. -/
def release (ref : SliceRef) (b : UtteranceBuffer) : UtteranceBuffer :=
  { b with expired := ref :: b.expired }

/-! ## What a call does -/

/-- What the cap takes from the head of a recording of this length. -/
def headDrop (cap length : Nat) : Nat := if 0 < cap then length - cap else 0

theorem truncateHead_eq (b : UtteranceBuffer) :
    b.truncateHead =
      { b with
        activeSamples := b.activeSamples.drop (headDrop b.capSamples b.activeSamples.length)
        activeStartedAt := b.activeStartedAt +
          (headDrop b.capSamples b.activeSamples.length * 1000 / b.sampleRate : Nat) *
            nsPerMs } := by
  unfold truncateHead
  split
  next hover => rw [headDrop, if_pos hover.1]
  next hfits =>
    have hnone : headDrop b.capSamples b.activeSamples.length = 0 := by
      unfold headDrop
      split
      next hcap =>
        have hle := not_and.mp hfits hcap
        omega
      next => rfl
    rw [hnone, List.drop_zero, Nat.zero_mul, Nat.zero_div, Int.natCast_zero, Int.zero_mul,
      Int.add_zero]

theorem append_of_recording {samples : List Sample} {b : UtteranceBuffer} (hne : samples ≠ [])
    (hrec : b.recording = true) :
    b.append samples = truncateHead { b with activeSamples := b.activeSamples ++ samples } := by
  rw [append, if_neg hne, if_pos hrec]

theorem append_of_idle {samples : List Sample} {b : UtteranceBuffer} (hne : samples ≠ [])
    (hrec : b.recording = false) :
    b.append samples = trimPreBuffer { b with preBuffer := b.preBuffer ++ samples } := by
  rw [append, if_neg hne, if_neg (Bool.eq_false_iff.mp hrec)]

theorem append_recording (samples : List Sample) (b : UtteranceBuffer) :
    (b.append samples).recording = b.recording := by
  unfold append truncateHead
  split
  · rfl
  · split
    · split <;> rfl
    · rfl

@[simp] theorem track_recording (b : UtteranceBuffer) : b.track.recording = b.recording := by
  show (detachOldest _).recording = _
  unfold detachOldest
  split <;> rfl

theorem onSpeechEnded_recording (t : TimePoint) (b : UtteranceBuffer) :
    (b.onSpeechEnded t).1.recording = false := by
  unfold onSpeechEnded
  split
  · rw [track_recording]
  next h => exact Bool.eq_false_iff.mpr h

end UtteranceBuffer

end Acva.Audio

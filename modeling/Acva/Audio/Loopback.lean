import Acva.Playback.Queue

/-! # The loopback sink

A ring of the samples that the playback engine has emitted. Its frame axis counts
every sample it was ever given, also those that the ring no longer holds.
-/

namespace Acva.Audio

open Acva.Playback

/-- A ring is never empty, and the next write is inside it. Times are in nanoseconds. -/
structure LoopbackSink where
  sampleRateHz : Nat
  ring : List Sample
  writePos : Nat := 0
  totalFrames : Nat := 0
  lastEmitTime : Int := 0
  lastEmitFirstFrame : Nat := 0
  writePos_lt : writePos < ring.length
deriving DecidableEq, Repr

namespace LoopbackSink

def create (capacitySamples sampleRateHz : Nat) : LoopbackSink where
  sampleRateHz := sampleRateHz
  ring := List.replicate (if 0 < capacitySamples then capacitySamples else 1) 0
  writePos_lt := by
    rw [List.length_replicate]
    split <;> omega

/-- `memcpy` into a buffer, from a position that leaves room for all of it. -/
def overwrite (pos : Nat) (samples ring : List Sample) : List Sample :=
  ring.take pos ++ samples ++ ring.drop (pos + samples.length)

theorem length_overwrite {pos : Nat} {samples ring : List Sample}
    (h : pos + samples.length ≤ ring.length) :
    (overwrite pos samples ring).length = ring.length := by
  simp only [overwrite, List.length_append, List.length_take, List.length_drop]
  omega

/-- Two copies where the samples run over the end of the ring. -/
def store (pos : Nat) (samples ring : List Sample) : List Sample :=
  if samples.length ≤ ring.length - pos then overwrite pos samples ring
  else
    let first := ring.length - pos
    overwrite 0 (samples.drop first) (overwrite pos (samples.take first) ring)

theorem length_store {pos : Nat} {samples ring : List Sample} (hpos : pos < ring.length)
    (hfits : samples.length ≤ ring.length) : (store pos samples ring).length = ring.length := by
  unfold store
  split
  next hroom => exact length_overwrite (by omega)
  next hwraps =>
    have hfirst : (overwrite pos (samples.take (ring.length - pos)) ring).length = ring.length :=
      length_overwrite (by rw [List.length_take]; omega)
    show (overwrite 0 _ (overwrite pos _ ring)).length = ring.length
    rw [length_overwrite, hfirst]
    rw [hfirst, List.length_drop]
    omega

/-- The last samples that fit in the ring. -/
def tailFor (samples ring : List Sample) : List Sample :=
  let toCopy := min samples.length ring.length
  (samples.drop (samples.length - toCopy)).take toCopy

theorem length_tailFor (samples ring : List Sample) :
    (tailFor samples ring).length = min samples.length ring.length := by
  simp only [tailFor, List.length_take, List.length_drop]
  omega

def onEmitted (samples : List Sample) (emitTime : Int) (s : LoopbackSink) : LoopbackSink :=
  if samples = [] then s
  else
    let toCopy := min samples.length s.ring.length
    let skipped := samples.length - toCopy
    { s with
      ring := store s.writePos (tailFor samples s.ring) s.ring
      writePos := (s.writePos + toCopy) % s.ring.length
      lastEmitFirstFrame := s.totalFrames + skipped
      totalFrames := s.totalFrames + samples.length
      lastEmitTime := emitTime
      writePos_lt := by
        rw [length_store s.writePos_lt]
        · exact Nat.mod_lt _ (Nat.zero_lt_of_lt s.writePos_lt)
        · rw [length_tailFor]
          exact Nat.min_le_right _ _ }

/-- Buffers one after the other, each with the time it is emitted at. -/
def onEmittedAll (buffers : List (List Sample × Int)) (s : LoopbackSink) : LoopbackSink :=
  buffers.foldl (fun s b => s.onEmitted b.1 b.2) s

@[simp] theorem onEmitted_totalFrames (samples : List Sample) (emitTime : Int) (s : LoopbackSink) :
    (s.onEmitted samples emitTime).totalFrames = s.totalFrames + samples.length := by
  unfold onEmitted
  split
  next h => simp [h]
  next => rfl

/-- The frame axis is as long as the concatenation of all the buffers. -/
theorem onEmittedAll_totalFrames (buffers : List (List Sample × Int)) (s : LoopbackSink) :
    (s.onEmittedAll buffers).totalFrames =
      s.totalFrames + (buffers.map Prod.fst).flatten.length := by
  induction buffers generalizing s with
  | nil => rfl
  | cons b buffers ih =>
      show ((s.onEmitted b.1 b.2).onEmittedAll buffers).totalFrames = _
      rw [ih, onEmitted_totalFrames, List.map_cons, List.flatten_cons, List.length_append]
      omega

end LoopbackSink

end Acva.Audio

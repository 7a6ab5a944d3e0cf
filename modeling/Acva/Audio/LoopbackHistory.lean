import Acva.Audio.Loopback
import Acva.Core.Window
import Mathlib.Data.List.Rotate

/-! # Reading the loopback sink

A query maps its capture time onto the frame axis and reads the ring. Over whole
histories the ring is the window on everything that was ever emitted, and the
slot arithmetic disappears.
-/

namespace Acva.Audio

open Acva.Playback Window

namespace LoopbackSink

/-- A signed 64-bit result. -/
def toInt64 (x : Int) : Int := x.bmod (2 ^ 64)

/-- How far the capture time lies behind the last emit, in frames. -/
def deltaFrames (deltaNs sr : Int) : Int :=
  if 0 ≤ deltaNs then (toInt64 (toInt64 (deltaNs * sr) + 500000000)).tdiv 1000000000
  else (toInt64 (toInt64 (deltaNs * sr) - 500000000)).tdiv 1000000000

def oldestFrame (s : LoopbackSink) : Int := s.totalFrames - min s.ring.length s.totalFrames

/-- The slot that holds a frame, counted back from the slot that is written next. -/
def slot (f : Int) (s : LoopbackSink) : Fin s.ring.length :=
  let back := (s.totalFrames - f).toNat
  ⟨(s.writePos + s.ring.length - back) % s.ring.length,
    Nat.mod_lt _ (Nat.zero_lt_of_lt s.writePos_lt)⟩

/-- One pass of the loop of `aligned`. -/
def sampleAt (f : Int) (s : LoopbackSink) : Sample :=
  if f < s.oldestFrame ∨ (s.totalFrames : Int) ≤ f then 0 else s.ring.get (s.slot f)

def aligned (captureTime : Int) (samplesNeeded : Nat) (s : LoopbackSink) : List Sample :=
  -- no data yet
  if s.lastEmitTime = 0 then List.replicate samplesNeeded 0
  else
    let deltaNs := toInt64 (captureTime - s.lastEmitTime)
    let firstTargetFrame := s.lastEmitFirstFrame + deltaFrames deltaNs s.sampleRateHz
    (List.range samplesNeeded).map fun i : Nat => s.sampleAt (firstTargetFrame + i)

/-! ## The ring turned to its oldest sample -/

/-- Writing at the write position, then turning past what was written, drops as many of
the oldest samples. -/
theorem rotate_store {pos : Nat} {samples ring : List Sample} (hpos : pos < ring.length)
    (hfits : samples.length ≤ ring.length) :
    (store pos samples ring).rotate ((pos + samples.length) % ring.length) =
      (ring.rotate pos ++ samples).drop samples.length := by
  have hturned : ring.rotate pos = ring.drop pos ++ ring.take pos :=
    List.rotate_eq_drop_append_take hpos.le
  unfold store
  split
  next hroom =>
    have hlen : (overwrite pos samples ring).length = ring.length :=
      length_overwrite (by omega)
    have hstart : (ring.take pos ++ samples).length = pos + samples.length := by
      rw [List.length_append, List.length_take, Nat.min_eq_left hpos.le]
    rw [← hlen, List.rotate_mod, List.rotate_eq_drop_append_take (by omega), hturned]
    simp only [overwrite]
    rw [List.drop_left' hstart, List.take_left' hstart, List.append_assoc,
      List.drop_append_of_le_length (by rw [List.length_drop]; omega), List.drop_drop]
  next hwraps =>
    -- `first` samples reach the ring's end, the others start over at its first slot
    let first := ring.length - pos
    let low := ring.take pos
    have hlow : low.length = pos := by
      rw [List.length_take]
      omega
    have hfirst : (samples.take first).length = first := by
      rw [List.length_take]
      omega
    have hinner : overwrite pos (samples.take first) ring = low ++ samples.take first := by
      have hend : ring.drop (pos + (samples.take first).length) = [] :=
        List.drop_eq_nil_of_le (by omega)
      rw [overwrite, hend, List.append_nil]
    have hsecond : (samples.drop first).length = samples.length - first := List.length_drop
    have hpast : (pos + samples.length) % ring.length = (samples.drop first).length := by
      rw [Nat.mod_eq_sub_mod (by omega), Nat.mod_eq_of_lt (by omega)]
      omega
    have houter : overwrite 0 (samples.drop first) (low ++ samples.take first) =
        samples.drop first ++ (low.drop (samples.length - first) ++ samples.take first) := by
      rw [overwrite, List.take_zero, List.nil_append, Nat.zero_add, hsecond,
        List.drop_append_of_le_length (by omega)]
    have hdrop : (ring.drop pos ++ low ++ samples).drop samples.length =
        low.drop (samples.length - first) ++ samples := by
      have hhigh : (ring.drop pos).length = first := List.length_drop
      have hsum : samples.length = (ring.drop pos).length + (samples.length - first) := by omega
      rw [List.append_assoc, hsum, List.drop_append, hhigh, Nat.add_sub_cancel_left,
        List.drop_append_of_le_length (by omega), List.drop_eq_nil_of_le (by omega),
        List.nil_append]
    show (overwrite 0 (samples.drop first) (overwrite pos (samples.take first) ring)).rotate _ = _
    rw [hinner, houter, hpast, List.rotate_append_length_eq, hturned, hdrop, List.append_assoc,
      List.take_append_drop]

theorem tailFor_eq_rtake (samples ring : List Sample) :
    tailFor samples ring = samples.rtake ring.length := by
  have hskipped : samples.length - min samples.length ring.length =
      samples.length - ring.length := by omega
  simp only [tailFor, List.rtake, hskipped]
  rw [List.take_of_length_le]
  rw [List.length_drop]
  omega

/-- The ring holds the end of the history, which silence precedes. -/
structure Holds (s : LoopbackSink) (history : List Sample) : Prop where
  window : s.ring.rotate s.writePos =
    (List.replicate s.ring.length 0 ++ history).rtake s.ring.length
  total : s.totalFrames = history.length

theorem Holds.create (capacitySamples sampleRateHz : Nat) :
    Holds (create capacitySamples sampleRateHz) [] where
  window := by
    simp [LoopbackSink.create, List.rtake]
  total := rfl

theorem Holds.onEmitted {s : LoopbackSink} {history : List Sample} (h : s.Holds history)
    (samples : List Sample) (emitTime : Int) :
    Holds (s.onEmitted samples emitTime) (history ++ samples) := by
  have htotal : (s.onEmitted samples emitTime).totalFrames = (history ++ samples).length := by
    rw [onEmitted_totalFrames, h.total, List.length_append]
  refine ⟨?_, htotal⟩
  unfold LoopbackSink.onEmitted
  split
  next hnil => rw [hnil, List.append_nil, h.window]
  next =>
    have hfits : (tailFor samples s.ring).length ≤ s.ring.length := by
      rw [length_tailFor]
      exact Nat.min_le_right _ _
    simp only [length_store s.writePos_lt hfits]
    rw [← length_tailFor, rotate_store s.writePos_lt hfits, h.window, tailFor_eq_rtake]
    generalize s.ring.length = cap
    have hwindow : ((List.replicate cap (0 : Sample) ++ history).rtake cap).length = cap := by
      rw [length_rtake, List.length_append, List.length_replicate]
      omega
    rw [drop_length_eq_rtake hwindow, rtake_append_rtake, rtake_rtake_append, List.append_assoc]

/-! ## Queries against the history -/

/-- A frame of the history, if it is one of the last `capacity` frames. -/
def windowAt (history : List Sample) (capacity : Nat) (f : Int) : Sample :=
  if 0 ≤ f ∧ history.length - capacity ≤ f ∧ f < history.length then history.getD f.toNat 0
  else 0

/-- What stands at index `i` of a query: the history from the first retained sample of the
last chunk on, moved by the rounded time difference. -/
def expectedAt (capacity sampleRateHz : Nat) (chunks : List (List Sample × Int))
    (hne : chunks ≠ []) (captureTime : Int) (i : Nat) : Sample :=
  let history := (chunks.map Prod.fst).flatten
  let last := chunks.getLast hne
  let firstRetained := history.length - min last.1.length capacity
  let delta : ℚ := ((captureTime - last.2) * sampleRateHz : Int) / 1000000000
  windowAt history capacity (firstRetained + roundAway delta + i)

theorem Holds.sampleAt {s : LoopbackSink} {history : List Sample} (h : s.Holds history)
    (f : Int) : s.sampleAt f = windowAt history s.ring.length f := by
  have hinside : ¬(f < s.oldestFrame ∨ (s.totalFrames : Int) ≤ f) ↔
      0 ≤ f ∧ history.length - s.ring.length ≤ f ∧ f < history.length := by
    rw [oldestFrame, h.total]
    omega
  unfold LoopbackSink.sampleAt windowAt
  by_cases hin : 0 ≤ f ∧ history.length - s.ring.length ≤ f ∧ f < history.length
  · rw [if_neg (hinside.mpr hin), if_pos hin]
    obtain ⟨hnonneg, hold, hnew⟩ := hin
    -- `back` frames before the end of the history, and of the window
    obtain ⟨back, hback⟩ : ∃ back : Nat, (history.length : Int) - f = back :=
      ⟨(history.length - f).toNat, by omega⟩
    have hslot : ((s.slot f : Fin _) : Nat) =
        (s.ring.length - back + s.writePos) % s.ring.length := by
      have hcount : ((s.totalFrames : Int) - f).toNat = back := by
        rw [h.total, hback, Int.toNat_natCast]
      simp only [slot, hcount]
      congr 1
      omega
    have hread : s.ring[(s.slot f : Nat)]? = history[f.toNat]? := by
      have hfirst : (List.replicate s.ring.length (0 : Sample)).length ≤
          s.ring.length + history.length - s.ring.length + (s.ring.length - back) := by
        rw [List.length_replicate]
        omega
      rw [hslot, ← List.getElem?_rotate (by omega), h.window, getElem?_rtake,
        List.length_append, List.length_replicate, List.getElem?_append_right hfirst,
        List.length_replicate]
      congr 1
      omega
    rw [List.get_eq_getElem, List.getD_eq_getElem?_getD, ← hread,
      List.getElem?_eq_getElem (s.slot f).isLt, Option.getD_some]
  · rw [if_pos (not_not.mp (mt hinside.mp hin)), if_neg hin]

@[simp] theorem onEmitted_ring_length (samples : List Sample) (emitTime : Int)
    (s : LoopbackSink) : (s.onEmitted samples emitTime).ring.length = s.ring.length := by
  unfold onEmitted
  split
  next => rfl
  next =>
    refine length_store s.writePos_lt ?_
    rw [length_tailFor]
    exact Nat.min_le_right _ _

@[simp] theorem onEmitted_sampleRateHz (samples : List Sample) (emitTime : Int)
    (s : LoopbackSink) : (s.onEmitted samples emitTime).sampleRateHz = s.sampleRateHz := by
  unfold onEmitted
  split <;> rfl

/-- A run of emits: the ring holds the history, at its first capacity and rate. -/
theorem onEmittedAll_holds (chunks : List (List Sample × Int)) {s : LoopbackSink}
    {history : List Sample} (h : s.Holds history) :
    (s.onEmittedAll chunks).Holds (history ++ (chunks.map Prod.fst).flatten) ∧
      (s.onEmittedAll chunks).ring.length = s.ring.length ∧
      (s.onEmittedAll chunks).sampleRateHz = s.sampleRateHz := by
  induction chunks generalizing s history with
  | nil =>
      rw [List.map_nil, List.flatten_nil, List.append_nil]
      exact ⟨h, rfl, rfl⟩
  | cons c chunks ih =>
      obtain ⟨hholds, hlength, hrate⟩ := ih (h.onEmitted c.1 c.2)
      rw [List.map_cons, List.flatten_cons, ← List.append_assoc]
      rw [onEmitted_ring_length] at hlength
      rw [onEmitted_sampleRateHz] at hrate
      exact ⟨hholds, hlength, hrate⟩

/-- The anchor is the last chunk, from its first sample that the ring took. -/
theorem onEmittedAll_anchor (chunks : List (List Sample × Int)) {last : List Sample × Int}
    (hlast : last.1 ≠ []) (s : LoopbackSink) :
    let s' := s.onEmittedAll (chunks ++ [last])
    s'.lastEmitTime = last.2 ∧
      s'.lastEmitFirstFrame = s'.totalFrames - min last.1.length s'.ring.length := by
  have hsplit : s.onEmittedAll (chunks ++ [last]) =
      (s.onEmittedAll chunks).onEmitted last.1 last.2 := by
    rw [onEmittedAll, List.foldl_append]
    rfl
  simp only [hsplit, onEmitted_ring_length, onEmitted_totalFrames]
  unfold onEmitted
  rw [if_neg hlast]
  refine ⟨rfl, ?_⟩
  show (s.onEmittedAll chunks).totalFrames + _ = _
  omega

/-- Where nothing overflows, the integer arithmetic rounds the exact time difference. -/
theorem deltaFrames_eq_roundAway {deltaNs : Int} {sr : Nat}
    (hlow : -2 ^ 63 ≤ deltaNs * sr - 500000000) (hhigh : deltaNs * sr + 500000000 < 2 ^ 63) :
    deltaFrames (toInt64 deltaNs) sr = roundAway ((deltaNs * sr : Int) / 1000000000) := by
  have hid : ∀ x : Int, -2 ^ 63 ≤ x → x < 2 ^ 63 → toInt64 x = x := by
    intro x hx hx'
    exact Int.bmod_eq_of_le (by omega) (by omega)
  have hround : roundAway ((deltaNs * sr : Int) / 1000000000) =
      if 0 ≤ deltaNs * sr then (deltaNs * sr + 500000000).tdiv 1000000000
      else (deltaNs * sr - 500000000).tdiv 1000000000 :=
    roundAway_div_even (deltaNs * sr) (k := 500000000) (by decide)
  rw [hround]
  unfold deltaFrames
  rcases Nat.eq_zero_or_pos sr with rfl | hsr
  · rw [Int.natCast_zero, mul_zero, mul_zero]
    split <;> rfl
  · have hsr' : (0 : Int) < sr := by exact_mod_cast hsr
    have hsign : 0 ≤ deltaNs * sr ↔ 0 ≤ deltaNs :=
      ⟨fun h => nonneg_of_mul_nonneg_left h hsr', fun h => mul_nonneg h hsr'.le⟩
    -- the difference is no longer than its product with the rate
    have hdelta : -2 ^ 63 ≤ deltaNs ∧ deltaNs < 2 ^ 63 := by
      constructor
      · nlinarith
      · nlinarith
    rw [hid deltaNs hdelta.1 hdelta.2, hid (deltaNs * sr) (by omega) (by omega),
      hid (deltaNs * sr + _) (by omega) (by omega), hid (deltaNs * sr - _) (by omega) (by omega)]
    simp only [hsign]

/-- Whatever was emitted and however it fell into the ring, a query reads the history as far
as the last `capacity` frames reach, with silence around them. -/
theorem aligned_onEmittedAll {capacity : Nat} (hcap : 1 ≤ capacity) (sampleRateHz : Nat)
    (chunks : List (List Sample × Int)) (hne : chunks ≠ [])
    (hchunks : ∀ c ∈ chunks, c.1 ≠ [] ∧ c.2 ≠ 0) (captureTime : Int)
    (hlow : -2 ^ 63 ≤ (captureTime - (chunks.getLast hne).2) * sampleRateHz - 500000000)
    (hhigh : (captureTime - (chunks.getLast hne).2) * sampleRateHz + 500000000 < 2 ^ 63)
    (samplesNeeded : Nat) :
    ((create capacity sampleRateHz).onEmittedAll chunks).aligned captureTime samplesNeeded =
      (List.range samplesNeeded).map
        (expectedAt capacity sampleRateHz chunks hne captureTime) := by
  let last := chunks.getLast hne
  obtain ⟨hlastNe, hlastTime⟩ := hchunks last (List.getLast_mem hne)
  have hcreate : (create capacity sampleRateHz).ring.length = capacity := by
    rw [create, List.length_replicate, if_pos (by omega)]
  obtain ⟨hholds, hlength, hrate⟩ :=
    onEmittedAll_holds chunks (Holds.create capacity sampleRateHz)
  obtain ⟨htime, hfirst⟩ :=
    onEmittedAll_anchor chunks.dropLast hlastNe (create capacity sampleRateHz)
  rw [List.dropLast_append_getLast hne] at htime hfirst
  generalize (create capacity sampleRateHz).onEmittedAll chunks = s at *
  rw [List.nil_append] at hholds
  rw [hlength, hcreate] at hfirst
  unfold aligned
  rw [htime, if_neg hlastTime, hfirst, hholds.total, hrate]
  apply List.map_congr_left
  intro i hi
  rw [hholds.sampleAt, hlength, hcreate]
  have hdelta : deltaFrames (toInt64 (captureTime - last.2)) sampleRateHz =
      roundAway (((captureTime - last.2) * sampleRateHz : Int) / 1000000000) :=
    deltaFrames_eq_roundAway hlow hhigh
  show windowAt _ _ (_ + deltaFrames (toInt64 (captureTime - last.2)) sampleRateHz + _) = _
  rw [hdelta]
  rfl

theorem aligned_onEmittedAll_wrapped :
    ((create 3 1000000000).onEmittedAll [([1, 2], 10), ([3, 4], 12)]).aligned 11 4 =
      [2, 3, 4, 0] :=
  (aligned_onEmittedAll (by decide) 1000000000 [([1, 2], 10), ([3, 4], 12)] (by decide)
    (by decide) 11 (by decide) (by decide) 4).trans (by decide +kernel)

/-- The rounding term is part of the arithmetic: with the product at the lowest 64-bit
number it wraps, and a window back to the only frame misses it. -/
theorem aligned_rounding_wraps :
    let chunks : List (List Sample × Int) := [([5], 1)]
    let captureTime : Int := 1 - 2 ^ 63
    let i : Nat := 9223372037
    (-2 ^ 63 ≤ (captureTime - 1) * 1 ∧ (captureTime - 1) * 1 < (2 ^ 63 : Int)) ∧
      expectedAt 1 1 chunks (List.cons_ne_nil _ _) captureTime i = 5 ∧
      (((create 1 1).onEmittedAll chunks).aligned captureTime (i + 1))[i]? = some 0 := by
  refine ⟨by decide, by decide +kernel, ?_⟩
  rw [aligned, if_neg (by decide), List.getElem?_map, List.getElem?_range (by omega)]
  decide +kernel

end LoopbackSink

end Acva.Audio

import Acva.Event.Event
import Mathlib.Algebra.Order.Ring.Int
import Mathlib.Tactic.Linarith

/-! # The audio clock

Frames are counted as they are captured, and each buffer anchors the count to the wall clock.
The clock converts between a frame and an instant by the rate. One way it cuts the length of
a frame to whole nanoseconds first, the other way it cuts the frames last.
-/

namespace Acva.Audio

structure MonotonicAudioClock where
  totalFrames : Nat := 0
  sampleRate : Nat := 0
  anchorFrame : Nat := 0
  anchorSteadyNs : Int := 0
  anchored : Bool := false
deriving DecidableEq, Repr

/-- A signed 64-bit result, or none where it overflows. -/
def int64 (x : Int) : Option Int := if -2 ^ 63 ≤ x ∧ x < 2 ^ 63 then some x else none

namespace MonotonicAudioClock

/-- The first tick anchors frame 0, the later ones the end of their buffer. -/
def onCaptureFrames (frameCount sampleRate : Nat) (now : TimePoint) (c : MonotonicAudioClock) :
    MonotonicAudioClock :=
  if sampleRate = 0 ∨ frameCount = 0 then c
  else if c.anchored = false then
    { sampleRate := sampleRate, anchorFrame := 0, anchorSteadyNs := now,
      totalFrames := frameCount, anchored := true }
  else
    { c with
      totalFrames := c.totalFrames + frameCount
      anchorFrame := c.totalFrames + frameCount
      anchorSteadyNs := now }

def nsPerFrame (c : MonotonicAudioClock) : Int := 1000000000 / (c.sampleRate : Int)

def steadyFor (frameIndex : Nat) (c : MonotonicAudioClock) : Option TimePoint :=
  if c.anchored = false ∨ c.sampleRate = 0 then some 0
  else do
    let frame ← int64 frameIndex
    let anchorFrame ← int64 c.anchorFrame
    let deltaFrames ← int64 (frame - anchorFrame)
    let deltaNs ← int64 (deltaFrames * c.nsPerFrame)
    int64 (c.anchorSteadyNs + deltaNs)

def framesAt (tp : TimePoint) (c : MonotonicAudioClock) : Option Nat :=
  if c.anchored = false ∨ c.sampleRate = 0 then some 0
  else do
    let deltaNs ← int64 (tp - c.anchorSteadyNs)
    let product ← int64 (deltaNs * c.sampleRate)
    let anchorFrame ← int64 c.anchorFrame
    let result ← int64 (anchorFrame + product.tdiv 1000000000)
    return if result < 0 then 0 else result.toNat

/-! ## The count -/

/-- A clock that no tick has anchored has counted nothing. -/
def Started (c : MonotonicAudioClock) : Prop := c.anchored = false → c.totalFrames = 0

theorem started_new : Started {} := fun _ => rfl

theorem onCaptureFrames_zero (sampleRate : Nat) (now : TimePoint) (c : MonotonicAudioClock) :
    c.onCaptureFrames 0 sampleRate now = c := if_pos (Or.inr rfl)

theorem onCaptureFrames_counts (frameCount : Nat) {sampleRate : Nat} (hrate : 0 < sampleRate)
    (now : TimePoint) {c : MonotonicAudioClock} (h : c.Started) :
    (c.onCaptureFrames frameCount sampleRate now).totalFrames = c.totalFrames + frameCount ∧
      (c.onCaptureFrames frameCount sampleRate now).Started := by
  unfold onCaptureFrames
  split
  next hskip =>
    have hnone : frameCount = 0 := by omega
    exact ⟨by rw [hnone]; rfl, h⟩
  split
  next hfirst =>
    refine ⟨?_, fun hnot => ?_⟩
    · rw [h hfirst, Nat.zero_add]
    · cases hnot
  next hlater => exact ⟨rfl, fun hnot => absurd hnot hlater⟩

/-! ## The conversions without overflow -/

theorem int64_eq_some {x y : Int} (h : int64 x = some y) : y = x := by
  unfold int64 at h
  split at h
  · exact (Option.some.inj h).symm
  · cases h

variable {c : MonotonicAudioClock} {i j : Nat} {tp : TimePoint}

theorem steadyFor_eq_some (hanchored : c.anchored = true) (hrate : 0 < c.sampleRate)
    (h : c.steadyFor i = some tp) :
    tp = c.anchorSteadyNs + ((i : Int) - c.anchorFrame) * c.nsPerFrame := by
  have hgo : ¬(c.anchored = false ∨ c.sampleRate = 0) := by
    rw [hanchored]
    simp only [Bool.true_eq_false, false_or]
    omega
  rw [steadyFor, if_neg hgo] at h
  simp only [Option.bind_eq_bind, Option.bind_eq_some_iff] at h
  obtain ⟨frame, hframe, anchor, hanchor, deltaFrames, hdelta, deltaNs, hns, htp⟩ := h
  rw [int64_eq_some htp, int64_eq_some hns, int64_eq_some hdelta, int64_eq_some hframe,
    int64_eq_some hanchor]

theorem framesAt_eq_some (hanchored : c.anchored = true) (hrate : 0 < c.sampleRate)
    (h : c.framesAt tp = some j) :
    j = (c.anchorFrame + ((tp - c.anchorSteadyNs) * c.sampleRate).tdiv 1000000000).toNat := by
  have hgo : ¬(c.anchored = false ∨ c.sampleRate = 0) := by
    rw [hanchored]
    simp only [Bool.true_eq_false, false_or]
    omega
  rw [framesAt, if_neg hgo] at h
  simp only [Option.bind_eq_bind, Option.bind_eq_some_iff, pure, Option.some.injEq] at h
  obtain ⟨deltaNs, hns, product, hproduct, anchor, hanchor, result, hresult, hj⟩ := h
  rw [int64_eq_some hanchor, int64_eq_some hproduct, int64_eq_some hns] at hresult
  rw [← hj, ← int64_eq_some hresult]
  split <;> omega

/-! ## There and back -/

/-- A frame's distance from the anchor, cut to whole nanoseconds a frame and then to whole
frames: one unit a frame of the distance is lost for each nanosecond a second is not divided
into. -/
def cutFrames (sampleRate : Nat) (delta : Int) : Int :=
  (delta * (1000000000 / (sampleRate : Int)) * sampleRate).tdiv 1000000000

theorem cutFrames_eq (sampleRate : Nat) (delta : Int) :
    cutFrames sampleRate delta =
      (delta * (1000000000 - 1000000000 % (sampleRate : Int))).tdiv 1000000000 := by
  have hwhole : (1000000000 : Int) / sampleRate * sampleRate =
      1000000000 - 1000000000 % (sampleRate : Int) := by
    have := Int.mul_ediv_add_emod 1000000000 (sampleRate : Int)
    linarith
  rw [cutFrames, Int.mul_assoc, hwhole]

theorem cutFrames_neg (sampleRate : Nat) (delta : Int) :
    cutFrames sampleRate (-delta) = -cutFrames sampleRate delta := by
  rw [cutFrames, cutFrames, Int.neg_mul, Int.neg_mul, Int.neg_tdiv]

/-- Where the rate does not divide a second, a distance comes back shorter. -/
theorem cutFrames_shorter {sampleRate : Nat} (hrate : 0 < sampleRate)
    (hdvd : ¬(sampleRate : Int) ∣ 1000000000) {delta : Int} (hdelta : 0 < delta) :
    0 ≤ cutFrames sampleRate delta ∧ cutFrames sampleRate delta < delta := by
  have hpos : (0 : Int) < sampleRate := Int.natCast_pos.mpr hrate
  have hparts := Int.mul_ediv_add_emod 1000000000 (sampleRate : Int)
  have hquot : 0 ≤ (sampleRate : Int) * (1000000000 / sampleRate) :=
    Int.mul_nonneg hpos.le (Int.ediv_nonneg (by decide) hpos.le)
  have hrest : 0 < 1000000000 % (sampleRate : Int) :=
    Int.emod_pos_of_not_dvd hdvd |>.resolve_left hpos.ne'
  have hnonneg : 0 ≤ delta * (1000000000 - 1000000000 % (sampleRate : Int)) :=
    Int.mul_nonneg hdelta.le (by omega)
  have hless : delta * (1000000000 - 1000000000 % (sampleRate : Int)) < delta * 1000000000 :=
    Int.mul_lt_mul_of_pos_left (by omega) hdelta
  rw [cutFrames_eq, Int.tdiv_eq_ediv_of_nonneg hnonneg]
  exact ⟨Int.ediv_nonneg hnonneg (by decide), Int.ediv_lt_of_lt_mul (by decide) hless⟩

theorem cutFrames_of_dvd {sampleRate : Nat} (hdvd : (sampleRate : Int) ∣ 1000000000)
    (delta : Int) : cutFrames sampleRate delta = delta := by
  rw [cutFrames_eq, Int.emod_eq_zero_of_dvd hdvd, Int.sub_zero]
  exact Int.mul_tdiv_cancel _ (by decide)

theorem framesAt_steadyFor (hanchored : c.anchored = true) (hrate : 0 < c.sampleRate)
    (hsteady : c.steadyFor i = some tp) (hframes : c.framesAt tp = some j) :
    j = ((c.anchorFrame : Int) + cutFrames c.sampleRate ((i : Int) - c.anchorFrame)).toNat := by
  rw [framesAt_eq_some hanchored hrate hframes, steadyFor_eq_some hanchored hrate hsteady,
    add_sub_cancel_left]
  rfl

/-- Without an overflow, a frame is found again exactly if it is the anchor or the rate divides
a second. -/
theorem framesAt_steadyFor_iff (hanchored : c.anchored = true) (hrate : 0 < c.sampleRate)
    (hsteady : c.steadyFor i = some tp) (hframes : c.framesAt tp = some j) :
    j = i ↔ i = c.anchorFrame ∨ c.sampleRate ∣ 1000000000 := by
  rw [framesAt_steadyFor hanchored hrate hsteady hframes]
  constructor
  · intro hsame
    by_contra hnot
    obtain ⟨hne, hdvd⟩ := not_or.mp hnot
    have hdvd' : ¬(c.sampleRate : Int) ∣ 1000000000 := mt Int.natCast_dvd_natCast.mp hdvd
    rcases Nat.lt_or_gt_of_ne hne with hbefore | hbehind
    · have hshort := cutFrames_shorter hrate hdvd' (show 0 < (c.anchorFrame : Int) - i by omega)
      have hneg := cutFrames_neg c.sampleRate ((c.anchorFrame : Int) - i)
      rw [Int.neg_sub] at hneg
      omega
    · have hshort := cutFrames_shorter hrate hdvd' (show 0 < (i : Int) - c.anchorFrame by omega)
      omega
  · rintro (rfl | hdvd)
    · rw [Int.sub_self, cutFrames, Int.zero_mul, Int.zero_mul, Int.zero_tdiv, Int.add_zero,
        Int.toNat_natCast]
    · rw [cutFrames_of_dvd (Int.natCast_dvd_natCast.mpr hdvd)]
      omega

/-- At 16 kHz a frame is 62500 ns long. -/
theorem framesAt_steadyFor_iff_16k :
    1000 = 1000 ↔ 1000 = 160 ∨ 16000 ∣ 1000000000 :=
  framesAt_steadyFor_iff (show (⟨160, 16000, 160, 5000, true⟩ : MonotonicAudioClock).anchored from
    rfl) (by decide) (show _ = some 52505000 by decide) (by decide)

/-- At 48 kHz the frame behind the anchor is 20833 ns away, and so is the anchor again. -/
theorem next_frame_lost :
    ¬∀ (c : MonotonicAudioClock) (i j : Nat) (tp : TimePoint), c.anchored = true →
      0 < c.sampleRate → c.steadyFor i = some tp → c.framesAt tp = some j → j = i := by
  intro h
  have hsame := h (onCaptureFrames 480 48000 0 {}) 1 0 20833 (by decide) (by decide) (by decide)
    (by decide)
  cases hsame

end MonotonicAudioClock

end Acva.Audio

import Acva.Audio.Utterance
import Mathlib.Algebra.Order.Field.Rat
import Mathlib.Tactic.FieldSimp
import Mathlib.Tactic.Linarith
import Mathlib.Tactic.Ring

/-! # The start time of a long recording

Each append that goes over the cap moves the start time by the samples it drops, in whole
milliseconds. What is rounded away is never made up for, so that it is its sum that tells how
far the start time lags behind.
-/

namespace Acva.Audio

open Acva.Playback

namespace UtteranceBuffer

/-! ## Appends to a recording -/

def appendAll (chunks : List (List Sample)) (b : UtteranceBuffer) : UtteranceBuffer :=
  chunks.foldl (fun b samples => b.append samples) b

/-- What each append drops from the head of a recording, by the sizes alone. -/
def headDrops (cap : Nat) : Nat → List Nat → List Nat
  | _, [] => []
  | length, size :: sizes =>
      if size = 0 then 0 :: headDrops cap length sizes
      else
        let drop := headDrop cap (length + size)
        drop :: headDrops cap (length + size - drop) sizes

/-- What the start time has been moved by, in milliseconds. -/
def movedMs (sampleRate : Nat) (drops : List Nat) : Nat :=
  (drops.map fun drop => drop * 1000 / sampleRate).sum

/-- What was rounded away, in parts of a millisecond. -/
def roundedAway (sampleRate : Nat) (drops : List Nat) : Nat :=
  (drops.map fun drop => drop * 1000 % sampleRate).sum

theorem movedMs_add_roundedAway (sampleRate : Nat) (drops : List Nat) :
    sampleRate * movedMs sampleRate drops + roundedAway sampleRate drops = drops.sum * 1000 := by
  induction drops with
  | nil => rfl
  | cons drop drops ih =>
      have hone := Nat.div_add_mod (drop * 1000) sampleRate
      simp only [movedMs, roundedAway, List.map_cons, List.sum_cons] at ih ⊢
      rw [Nat.mul_add, Nat.add_mul]
      omega

theorem headDrop_le (cap length : Nat) : headDrop cap length ≤ length := by
  unfold headDrop
  split <;> omega

/-- What an append to a recording does to its length and its start. -/
theorem append_head {samples : List Sample} (hnil : samples ≠ []) {b : UtteranceBuffer}
    (hrec : b.recording = true) :
    let drop := headDrop b.capSamples (b.activeSamples.length + samples.length)
    (b.append samples).capSamples = b.capSamples ∧
      (b.append samples).sampleRate = b.sampleRate ∧
      (b.append samples).activeSamples.length =
        b.activeSamples.length + samples.length - drop ∧
      (b.append samples).activeStartedAt =
        b.activeStartedAt + (drop * 1000 / b.sampleRate : Nat) * nsPerMs := by
  intro drop
  rw [(append_of_recording hnil hrec).trans (truncateHead_eq _)]
  refine ⟨rfl, rfl, ?_, ?_⟩
  · simp only [List.length_drop, List.length_append]
    rfl
  · simp only [List.length_append]
    rfl

/-- Along the appends: what is dropped, and where the start time goes. -/
theorem appendAll_recording (chunks : List (List Sample)) {b : UtteranceBuffer}
    (hrec : b.recording = true) :
    let drops := headDrops b.capSamples b.activeSamples.length (chunks.map List.length)
    (b.appendAll chunks).activeSamples.length + drops.sum =
        b.activeSamples.length + (chunks.map List.length).sum ∧
      (b.appendAll chunks).activeStartedAt =
        b.activeStartedAt + movedMs b.sampleRate drops * nsPerMs := by
  induction chunks generalizing b with
  | nil =>
      refine ⟨rfl, ?_⟩
      simp [appendAll, movedMs, headDrops]
  | cons samples chunks ih =>
      have hlater := append_recording samples b
      obtain ⟨hlength, hstart⟩ := ih (hlater.trans hrec)
      have hall : b.appendAll (samples :: chunks) = (b.append samples).appendAll chunks := rfl
      rw [hall, List.map_cons, headDrops, List.sum_cons]
      by_cases hnil : samples = []
      · have hsame : b.append samples = b := if_pos hnil
        rw [hsame] at hlength hstart ⊢
        subst hnil
        simp only [List.length_nil, if_true, List.sum_cons, Nat.zero_add]
        refine ⟨hlength, hstart.trans ?_⟩
        simp [movedMs]
      · have hpos : 0 < samples.length := List.length_pos_of_ne_nil hnil
        have hle := headDrop_le b.capSamples (b.activeSamples.length + samples.length)
        obtain ⟨hcap, hrate, hactive, hmoved⟩ := append_head hnil hrec
        rw [hcap, hactive] at hlength
        rw [hcap, hactive, hrate, hmoved] at hstart
        rw [if_neg (by omega)]
        simp only [List.sum_cons]
        refine ⟨by omega, hstart.trans ?_⟩
        rw [movedMs, movedMs, List.map_cons, List.sum_cons, Int.natCast_add, Int.add_mul]
        exact Int.add_assoc _ _ _

theorem appendAll_onSpeechStarted (prePadStart speechStartedAt : TimePoint)
    (chunks : List (List Sample)) (b : UtteranceBuffer) :
    let b' := (b.onSpeechStarted prePadStart speechStartedAt).appendAll chunks
    let drops := headDrops b.capSamples b.preBuffer.length (chunks.map List.length)
    b.preBuffer.length + (chunks.map List.length).sum - b'.activeSamples.length = drops.sum ∧
      b'.activeStartedAt = prePadStart + movedMs b.sampleRate drops * nsPerMs := by
  intro b' drops
  have hrec : (b.onSpeechStarted prePadStart speechStartedAt).recording = true := rfl
  obtain ⟨hlength, hstart⟩ := appendAll_recording chunks hrec
  refine ⟨?_, hstart⟩
  have htotal : b'.activeSamples.length + drops.sum =
      b.preBuffer.length + (chunks.map List.length).sum := hlength
  omega

end UtteranceBuffer

/-! ## The lag -/

/-- The start time is within a millisecond of where the dropped samples put it. They are the
samples that the recording was given and no longer has. -/
def StartFollows (prePadStart speechStartedAt : TimePoint) (chunks : List (List Sample))
    (b : UtteranceBuffer) : Prop :=
  let b' := (b.onSpeechStarted prePadStart speechStartedAt).appendAll chunks
  let totalDropped := b.preBuffer.length + (chunks.map List.length).sum - b'.activeSamples.length
  |(b'.activeStartedAt : ℚ) - (prePadStart + totalDropped * 1000000000 / b.sampleRate)| < nsPerMs

/-- In nanoseconds: what is missing of the dropped samples' time. -/
theorem lag_eq {sampleRate : Nat} (hrate : 0 < sampleRate) (drops : List Nat) :
    (drops.sum * 1000000000 / sampleRate : ℚ) -
        (UtteranceBuffer.movedMs sampleRate drops : ℚ) * nsPerMs =
      UtteranceBuffer.roundedAway sampleRate drops * nsPerMs / sampleRate := by
  have hne : (sampleRate : ℚ) ≠ 0 := Nat.cast_ne_zero.mpr (Nat.ne_of_gt hrate)
  have hparts : (sampleRate : ℚ) * UtteranceBuffer.movedMs sampleRate drops +
      UtteranceBuffer.roundedAway sampleRate drops = drops.sum * 1000 :=
    mod_cast UtteranceBuffer.movedMs_add_roundedAway sampleRate drops
  have hns : (nsPerMs : ℚ) = 1000000 := by norm_num [nsPerMs]
  rw [hns]
  field_simp
  linarith

theorem abs_lag_lt_iff {sampleRate : Nat} (hrate : 0 < sampleRate) (n : Nat) :
    |(n * nsPerMs / sampleRate : ℚ)| < nsPerMs ↔ n < sampleRate := by
  have hpos : (0 : ℚ) < sampleRate := Nat.cast_pos.mpr hrate
  have hns : (0 : ℚ) < nsPerMs := by norm_num [nsPerMs]
  have hnonneg : (0 : ℚ) ≤ n * nsPerMs / sampleRate :=
    div_nonneg (mul_nonneg (Nat.cast_nonneg n) hns.le) hpos.le
  rw [abs_of_nonneg hnonneg, div_lt_iff₀ hpos, mul_comm (nsPerMs : ℚ),
    mul_lt_mul_iff_of_pos_right hns, Nat.cast_lt]

/-- The start time follows the dropped samples exactly if what was rounded away in all the
appends together is less than a millisecond. -/
theorem startFollows_iff (prePadStart speechStartedAt : TimePoint) (chunks : List (List Sample))
    (b : UtteranceBuffer) (hrate : 0 < b.sampleRate) :
    StartFollows prePadStart speechStartedAt chunks b ↔
      UtteranceBuffer.roundedAway b.sampleRate (UtteranceBuffer.headDrops b.capSamples
        b.preBuffer.length (chunks.map List.length)) < b.sampleRate := by
  obtain ⟨htotal, hstart⟩ :=
    b.appendAll_onSpeechStarted prePadStart speechStartedAt chunks
  have hlag := lag_eq hrate
    (UtteranceBuffer.headDrops b.capSamples b.preBuffer.length (chunks.map List.length))
  rw [StartFollows, htotal, hstart, ← abs_lag_lt_iff hrate, ← hlag, abs_sub_comm]
  push_cast
  rw [add_sub_add_left_eq_sub]

/-- The cap is a millisecond of samples. Its sixteen samples are pushed out one by one, and no
push moves the start time. -/
theorem start_stands_still :
    ¬∀ prePadStart speechStartedAt chunks b, 0 < b.sampleRate →
      StartFollows prePadStart speechStartedAt chunks b := by
  intro h
  have hlag := h 0 0 (List.replicate 32 [0])
    { sampleRate := 16000, maxDurationMs := 1 } (by decide)
  unfold StartFollows at hlag
  exact absurd hlag (by decide +kernel)

theorem startFollows_whole_ms :
    StartFollows 0 0 [List.replicate 16 0, List.replicate 16 0]
      { sampleRate := 16000, maxDurationMs := 1 } :=
  (startFollows_iff 0 0 _ _ (by decide)).mpr (by decide)

end Acva.Audio

import Acva.Audio.Clock
import Acva.Audio.Pipeline
import Acva.Audio.SpscRing
import Mathlib.Algebra.Order.BigOperators.Group.List

/-! # The capture engine

The callback of the audio device hands over a buffer. The gate drops it, or it becomes a
frame for the ring, which may be full; the clock counts it in any case. What became of each
buffer is noted beside the engine, and the notes account for every sample as long as no
buffer is longer than a frame.
-/

namespace Acva.Audio

open Acva.Playback

def kMaxCaptureSamples : Nat := 1024

/-- A frame of the ring, with the index that only capture writes. -/
structure CapturedFrame extends AudioFrame where
  frameIndex : Nat
  fits : samples.length ≤ kMaxCaptureSamples
deriving DecidableEq, Repr

/-- The capacity is 256. -/
abbrev CaptureRing := SpscRing CapturedFrame 8

/-- The rate is checked when the configuration is loaded. -/
structure AudioConfig where
  sampleRateHz : Nat
  sampleRateHz_pos : 0 < sampleRateHz

/-- What the device hands over: no buffer, or one with as many samples as it says. -/
inductive CaptureInput
  | null (frameCount : Nat)
  | buffer (samples : List Sample)
deriving DecidableEq, Repr

namespace CaptureInput

def frameCount : CaptureInput → Nat
  | null frameCount => frameCount
  | buffer samples => samples.length

def samples : CaptureInput → List Sample
  | null _ => []
  | buffer samples => samples

/-- What a call takes of the buffer. -/
def taken (input : CaptureInput) : Nat := min input.samples.length kMaxCaptureSamples

/-- No more samples than a frame has room for, and none where there is no buffer. -/
def Fits : CaptureInput → Prop
  | null frameCount => frameCount = 0
  | buffer samples => samples.length ≤ kMaxCaptureSamples

end CaptureInput

structure CaptureEngine where
  cfg : AudioConfig
  ring : CaptureRing
  clock : MonotonicAudioClock := {}
  framesCaptured : Nat := 0
  framesGated : Nat := 0
  ringOverruns : Nat := 0

namespace CaptureEngine

def frameOf (samples : List Sample) (now : TimePoint) (s : CaptureEngine) : CapturedFrame where
  samples := samples.take kMaxCaptureSamples
  capturedAt := now
  frameIndex := s.clock.totalFrames
  fits := List.length_take_le _ _

/-- `gateDrops` is what the gate answers, if there is one. The clock reads the time once
more. -/
def onInput (input : CaptureInput) (gateDrops : Bool) (now tick : TimePoint)
    (s : CaptureEngine) : CaptureEngine :=
  match input with
  | .null _ => s
  | .buffer samples =>
      if samples.length = 0 then s
      else
        let take := min samples.length kMaxCaptureSamples
        let clock := s.clock.onCaptureFrames take s.cfg.sampleRateHz tick
        if gateDrops = true then { s with framesGated := s.framesGated + take, clock := clock }
        else
          let s := match s.ring.push (s.frameOf samples now) with
            | some ring => { s with ring := ring }
            | none => { s with ringOverruns := s.ringOverruns + 1 }
          { s with framesCaptured := s.framesCaptured + take, clock := clock }

end CaptureEngine

/-! ## What became of the buffers -/

inductive Disposition
  | skipped
  | gated (count : Nat)
  | pushed (frame : CapturedFrame)
  | overrun (frame : CapturedFrame)
deriving DecidableEq, Repr

namespace Disposition

def gatedCount : Disposition → Nat
  | gated count => count
  | _ => 0

def frame? : Disposition → Option CapturedFrame
  | pushed frame => some frame
  | _ => none

def isOverrun : Disposition → Bool
  | overrun _ => true
  | _ => false

/-- Every one of the samples is in the frame or in the count. -/
def Covers (samples : List Sample) : Disposition → Prop
  | skipped => samples = []
  | gated count => count = samples.length
  | pushed frame => frame.samples = samples
  | overrun frame => frame.samples = samples

end Disposition

structure CaptureLog where
  calls : List (CaptureInput × Disposition) := []
  popped : List CapturedFrame := []

/-- A callback of the device, or the worker that takes the next frame. -/
inductive CaptureAction
  | onInput (input : CaptureInput) (gateDrops : Bool) (now tick : TimePoint)
  | pop

def CaptureAction.input? : CaptureAction → Option CaptureInput
  | onInput input _ _ _ => some input
  | pop => none

namespace CaptureEngine

def dispose (input : CaptureInput) (gateDrops : Bool) (now : TimePoint) (s : CaptureEngine) :
    Disposition :=
  if input.samples.length = 0 then .skipped
  else if gateDrops = true then .gated input.taken
  else match s.ring.push (s.frameOf input.samples now) with
    | some _ => .pushed (s.frameOf input.samples now)
    | none => .overrun (s.frameOf input.samples now)

def act (p : CaptureEngine × CaptureLog) : CaptureAction → CaptureEngine × CaptureLog
  | .onInput input gateDrops now tick =>
      (p.1.onInput input gateDrops now tick,
        { p.2 with calls := p.2.calls ++ [(input, p.1.dispose input gateDrops now)] })
  | .pop =>
      match p.1.ring.pop with
      | some (frame, ring) =>
          ({ p.1 with ring := ring }, { p.2 with popped := p.2.popped ++ [frame] })
      | none => p

/-- From a new engine on, over a ring that may hold frames. -/
def runAll (cfg : AudioConfig) (ring : CaptureRing) (actions : List CaptureAction) :
    CaptureEngine × CaptureLog :=
  actions.foldl act ({ cfg := cfg, ring := ring }, {})

/-- Every sample that was handed over is in a frame of the ring, in the gate's count or in a
frame of the overruns, and the clock has counted the frames of all calls. -/
structure Conserves (ring : CaptureRing) (actions : List CaptureAction)
    (p : CaptureEngine × CaptureLog) : Prop where
  calls : p.2.calls.map Prod.fst = actions.filterMap CaptureAction.input?
  frames : ring.contents ++ p.2.calls.filterMap (·.2.frame?) = p.2.popped ++ p.1.ring.contents
  gated : p.1.framesGated = (p.2.calls.map (·.2.gatedCount)).sum
  overruns : p.1.ringOverruns = p.2.calls.countP (·.2.isOverrun)
  covered : ∀ call ∈ p.2.calls, call.2.Covers call.1.samples
  clock : p.1.clock.totalFrames = (p.2.calls.map (·.1.frameCount)).sum

/-! ## One call -/

/-- What a call does, given what becomes of its buffer. -/
structure CallStep (input : CaptureInput) (d : Disposition) (s s' : CaptureEngine) : Prop where
  cfg : s'.cfg = s.cfg
  ring : s'.ring.contents = s.ring.contents ++ d.frame?.toList
  gated : s'.framesGated = s.framesGated + d.gatedCount
  overruns : s'.ringOverruns = s.ringOverruns + if d.isOverrun = true then 1 else 0
  covers : d.Covers (input.samples.take kMaxCaptureSamples)
  clock : ∃ tick, s'.clock = s.clock.onCaptureFrames input.taken s.cfg.sampleRateHz tick

theorem step_of_skipped {input : CaptureInput} (hempty : input.samples.length = 0)
    (tick : TimePoint) (s : CaptureEngine) : CallStep input .skipped s s := by
  refine ⟨rfl, (List.append_nil _).symm, rfl, rfl, ?_, tick, ?_⟩
  · rw [List.length_eq_zero_iff.mp hempty]
    exact List.take_nil
  · have htaken : input.taken = 0 := by rw [CaptureInput.taken, hempty, Nat.zero_min]
    rw [htaken, MonotonicAudioClock.onCaptureFrames_zero]

theorem onInput_step (input : CaptureInput) (gateDrops : Bool) (now tick : TimePoint)
    (s : CaptureEngine) :
    CallStep input (s.dispose input gateDrops now) s (s.onInput input gateDrops now tick) := by
  cases input with
  | null frameCount => exact step_of_skipped rfl tick s
  | buffer samples =>
      by_cases hempty : samples.length = 0
      · have hd : s.dispose (.buffer samples) gateDrops now = .skipped := if_pos hempty
        have hs : s.onInput (.buffer samples) gateDrops now tick = s := if_pos hempty
        rw [hd, hs]
        exact step_of_skipped (show (CaptureInput.buffer samples).samples.length = 0 from hempty)
          tick s
      · cases gateDrops with
        | true =>
            simp only [onInput, dispose, hempty, CaptureInput.samples, ↓reduceIte]
            refine ⟨rfl, (List.append_nil _).symm, rfl, rfl, ?_, tick, rfl⟩
            exact (List.length_take.trans (Nat.min_comm _ _)).symm
        | false =>
            simp only [onInput, dispose, hempty, CaptureInput.samples, Bool.false_eq_true,
              ↓reduceIte]
            cases hpush : s.ring.push (s.frameOf samples now) with
            | some ring => exact ⟨rfl, SpscRing.contents_push hpush, rfl, rfl, rfl, tick, rfl⟩
            | none => exact ⟨rfl, (List.append_nil _).symm, rfl, rfl, rfl, tick, rfl⟩

/-- What is noted covers the buffer exactly if a frame had room for it. -/
theorem covers_of_fits {input : CaptureInput} {d : Disposition} (hfits : input.Fits)
    (h : d.Covers (input.samples.take kMaxCaptureSamples)) : d.Covers input.samples := by
  have hall : input.samples.take kMaxCaptureSamples = input.samples := by
    cases input with
    | null _ => exact List.take_nil
    | buffer samples => exact List.take_of_length_le hfits
  rwa [hall] at h

theorem taken_le (input : CaptureInput) : input.taken ≤ input.frameCount := by
  cases input with
  | null _ => exact (Nat.min_le_left _ _).trans (Nat.zero_le _)
  | buffer _ => exact Nat.min_le_left _ _

theorem fits_iff (input : CaptureInput) : input.Fits ↔ input.taken = input.frameCount := by
  cases input with
  | null frameCount =>
      change frameCount = 0 ↔ 0 = frameCount
      exact eq_comm
  | buffer samples => exact min_eq_left_iff.symm

/-! ## Every run -/

/-- What holds of every run, whatever the buffers. -/
structure Noted (ring : CaptureRing) (actions : List CaptureAction)
    (p : CaptureEngine × CaptureLog) : Prop where
  calls : p.2.calls.map Prod.fst = actions.filterMap CaptureAction.input?
  frames : ring.contents ++ p.2.calls.filterMap (·.2.frame?) = p.2.popped ++ p.1.ring.contents
  gated : p.1.framesGated = (p.2.calls.map (·.2.gatedCount)).sum
  overruns : p.1.ringOverruns = p.2.calls.countP (·.2.isOverrun)
  covered : ∀ call ∈ p.2.calls, call.2.Covers (call.1.samples.take kMaxCaptureSamples)
  clock : p.1.clock.totalFrames = (p.2.calls.map (·.1.taken)).sum
  started : p.1.clock.Started

theorem noted_new (cfg : AudioConfig) (ring : CaptureRing) :
    Noted ring [] ({ cfg := cfg, ring := ring }, {}) where
  calls := rfl
  frames := List.append_nil _
  gated := rfl
  overruns := rfl
  covered _ h := absurd h List.not_mem_nil
  clock := rfl
  started := MonotonicAudioClock.started_new

variable {ring : CaptureRing} {actions : List CaptureAction} {s s' : CaptureEngine}
  {log : CaptureLog}

theorem Noted.onInput {input : CaptureInput} {d : Disposition} {gateDrops : Bool}
    {now tick : TimePoint} (h : Noted ring actions (s, log)) (hstep : CallStep input d s s') :
    Noted ring (actions ++ [.onInput input gateDrops now tick])
      (s', { log with calls := log.calls ++ [(input, d)] }) := by
  obtain ⟨ticked, hclock⟩ := hstep.clock
  have hcount := MonotonicAudioClock.onCaptureFrames_counts input.taken s.cfg.sampleRateHz_pos
    ticked h.started
  rw [← hclock] at hcount
  refine ⟨?_, ?_, ?_, ?_, ?_, ?_, hcount.2⟩
  · rw [List.map_append, List.filterMap_append, h.calls]
    rfl
  · rw [List.filterMap_append, ← List.append_assoc, h.frames, hstep.ring, List.append_assoc]
    cases d <;> rfl
  · rw [hstep.gated, h.gated, List.map_append, List.sum_append]
    rfl
  · rw [hstep.overruns, h.overruns, List.countP_append]
    cases d <;> rfl
  · intro call hcall
    rcases List.mem_append.mp hcall with hold | hnew
    · exact h.covered call hold
    · rw [List.mem_singleton.mp hnew]
      exact hstep.covers
  · rw [hcount.1, h.clock, List.map_append, List.sum_append]
    rfl

theorem Noted.pop {frame : CapturedFrame} {rest : CaptureRing}
    (h : Noted ring actions (s, log)) (hpop : s.ring.pop = some (frame, rest)) :
    Noted ring (actions ++ [.pop])
      ({ s with ring := rest }, { log with popped := log.popped ++ [frame] }) where
  calls := by
    rw [List.filterMap_append, ← h.calls]
    exact (List.append_nil _).symm
  frames := by
    rw [h.frames, SpscRing.contents_pop hpop, List.append_assoc]
    rfl
  gated := h.gated
  overruns := h.overruns
  covered := h.covered
  clock := h.clock
  started := h.started

theorem noted_runAll (cfg : AudioConfig) (ring : CaptureRing) (actions : List CaptureAction) :
    Noted ring actions (runAll cfg ring actions) := by
  induction actions using List.reverseRecOn with
  | nil => exact noted_new cfg ring
  | append_singleton actions action ih =>
      have hlast : runAll cfg ring (actions ++ [action]) =
          act (runAll cfg ring actions) action := by
        rw [runAll, List.foldl_append]
        rfl
      rw [hlast]
      cases action with
      | onInput input gateDrops now tick =>
          exact ih.onInput (onInput_step input gateDrops now tick _)
      | pop =>
          cases hpop : (runAll cfg ring actions).1.ring.pop with
          | none =>
              rw [act, hpop]
              refine { ih with calls := ?_ }
              rw [List.filterMap_append, ← ih.calls]
              exact (List.append_nil _).symm
          | some popped =>
              rw [act, hpop]
              exact ih.pop hpop

/-- Captured audio is conserved exactly if every buffer has room in a frame. -/
theorem conserves_runAll_iff (cfg : AudioConfig) (ring : CaptureRing)
    (actions : List CaptureAction) :
    Conserves ring actions (runAll cfg ring actions) ↔
      ∀ input ∈ actions.filterMap CaptureAction.input?, input.Fits := by
  have h := noted_runAll cfg ring actions
  rw [← h.calls, List.forall_mem_map]
  constructor
  · intro hall
    by_contra hnot
    simp only [not_forall] at hnot
    obtain ⟨call, hcall, hlong⟩ := hnot
    have hless : call.1.taken < call.1.frameCount :=
      Nat.lt_of_le_of_ne (taken_le call.1) (mt (fits_iff call.1).mpr hlong)
    have hsum := List.sum_lt_sum (fun call : CaptureInput × Disposition => call.1.taken)
      (fun call => call.1.frameCount) (fun call _ => taken_le call.1) ⟨call, hcall, hless⟩
    rw [← h.clock, ← hall.clock] at hsum
    exact Nat.lt_irrefl _ hsum
  · intro hfit
    have hcounts : (runAll cfg ring actions).2.calls.map (·.1.taken) =
        (runAll cfg ring actions).2.calls.map (·.1.frameCount) :=
      List.map_congr_left fun call hcall => (fits_iff call.1).mp (hfit call hcall)
    exact
      { calls := h.calls
        frames := h.frames
        gated := h.gated
        overruns := h.overruns
        covered := fun call hcall => covers_of_fits (hfit call hcall) (h.covered call hcall)
        clock := by rw [h.clock, hcounts] }

/-- A device buffer of 2048 frames is counted as 1024. -/
theorem large_buffer_lost :
    ¬∀ (cfg : AudioConfig) (ring : CaptureRing) (actions : List CaptureAction),
      Conserves ring actions (runAll cfg ring actions) := by
  intro hall
  let cfg : AudioConfig := ⟨48000, by decide⟩
  let ring : CaptureRing := ⟨0, 0, fun _ => ⟨⟨[], 0⟩, 0, Nat.zero_le _⟩⟩
  let input : CaptureInput := .buffer (List.replicate 2048 0)
  have h := hall cfg ring [.onInput input true 0 0]
  have hsum := (noted_runAll cfg ring [.onInput input true 0 0]).clock.symm.trans h.clock
  have hinput : (runAll cfg ring [.onInput input true 0 0]).2.calls =
      [(input, .gated input.taken)] := by
    simp only [runAll, List.foldl_cons, List.foldl_nil, act, List.nil_append, dispose, input,
      CaptureInput.samples, List.length_replicate, ↓reduceIte]
    rfl
  have hlength : input.samples.length = 2048 := List.length_replicate
  have hcount : input.frameCount = 2048 := List.length_replicate
  rw [hinput, List.map_singleton, List.map_singleton, List.sum_singleton, List.sum_singleton,
    hcount, CaptureInput.taken, hlength] at hsum
  exact absurd hsum (by decide)

end CaptureEngine

end Acva.Audio

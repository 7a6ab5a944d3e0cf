import Acva.Audio.Endpointer
import Mathlib.Data.List.Induction

/-! # The endpointer's timing

Two durations are all that the endpointer keeps of the frames it has seen. In `Onset` the one
sums up the loud frames since `Quiet` was left, in `Endpoint` the other sums up the frames
since the first that was below the offset.
-/

namespace Acva.Audio

/-! ## Frames -/

structure VadFrame where
  vadProbability : ℚ
  frameDuration : Int
  frameTime : TimePoint

/-- The frames' durations together. -/
def totalMs (frames : List VadFrame) : Int := (frames.map (·.frameDuration)).sum

theorem totalMs_append (frames more : List VadFrame) :
    totalMs (frames ++ more) = totalMs frames + totalMs more := by
  rw [totalMs, List.map_append, List.sum_append]
  rfl

theorem totalMs_singleton (f : VadFrame) : totalMs [f] = f.frameDuration := Int.add_zero _

namespace EndpointerConfig

def AboveOnset (cfg : EndpointerConfig) (f : VadFrame) : Prop :=
  cfg.onsetThreshold ≤ f.vadProbability

def BelowOffset (cfg : EndpointerConfig) (f : VadFrame) : Prop :=
  f.vadProbability < cfg.offsetThreshold

instance (cfg : EndpointerConfig) (f : VadFrame) : Decidable (cfg.AboveOnset f) :=
  inferInstanceAs (Decidable (_ ≤ _))

instance (cfg : EndpointerConfig) (f : VadFrame) : Decidable (cfg.BelowOffset f) :=
  inferInstanceAs (Decidable (_ < _))

/-- The durations of the frames at or above the onset. -/
def loudMs (cfg : EndpointerConfig) (frames : List VadFrame) : Int :=
  totalMs (frames.filter fun f => cfg.AboveOnset f)

theorem loudMs_append (cfg : EndpointerConfig) (frames more : List VadFrame) :
    cfg.loudMs (frames ++ more) = cfg.loudMs frames + cfg.loudMs more := by
  rw [loudMs, List.filter_append, totalMs_append]
  rfl

theorem loudMs_of_above {cfg : EndpointerConfig} {f : VadFrame} (h : cfg.AboveOnset f) :
    cfg.loudMs [f] = f.frameDuration := by
  have honly : [f].filter (fun f => cfg.AboveOnset f) = [f] := by simp [h]
  rw [loudMs, honly, totalMs_singleton]

theorem loudMs_of_not_above {cfg : EndpointerConfig} {f : VadFrame} (h : ¬cfg.AboveOnset f) :
    cfg.loudMs [f] = 0 := by
  have hnone : [f].filter (fun f => cfg.AboveOnset f) = [] := by simp [h]
  rw [loudMs, hnone]
  rfl

end EndpointerConfig

namespace Endpointer

def create (cfg : EndpointerConfig) : Endpointer := { cfg }

def frame (e : Endpointer) (f : VadFrame) : Endpointer × FrameOutcome :=
  e.onFrame f.vadProbability f.frameDuration f.frameTime

def after (e : Endpointer) (frames : List VadFrame) : Endpointer :=
  frames.foldl (fun e f => (e.frame f).1) e

def outcomes : Endpointer → List VadFrame → List FrameOutcome
  | _, [] => []
  | e, f :: frames => (e.frame f).2 :: outcomes (e.frame f).1 frames

theorem after_append (e : Endpointer) (frames more : List VadFrame) :
    e.after (frames ++ more) = (e.after frames).after more := List.foldl_append

theorem after_concat (e : Endpointer) (frames : List VadFrame) (f : VadFrame) :
    e.after (frames ++ [f]) = ((e.after frames).frame f).1 := after_append e frames [f]

/-! ## What one frame does -/

section

variable {e : Endpointer} {f : VadFrame}

theorem frame_cfg : (e.frame f).1.cfg = e.cfg := by
  unfold frame onFrame extendQuiet
  cases e.state <;> dsimp only <;> repeat' split
  all_goals rfl

/-- All that a frame can do, with what the two durations make of it. -/
inductive FrameStep (e : Endpointer) (f : VadFrame) : Endpointer × FrameOutcome → Prop
  | waits (hstate : e.state = .quiet) : FrameStep e f (e, .none)
  | rises {e' : Endpointer} (hstate : e.state = .quiet) (hloud : e.cfg.AboveOnset f)
      (hnext : e'.state = .onset) (hdur : e'.speechDur = f.frameDuration) :
      FrameStep e f (e', .none)
  | gathers {e' : Endpointer} (hstate : e.state = .onset) (hloud : e.cfg.AboveOnset f)
      (hnext : e'.state = .onset) (hdur : e'.speechDur = e.speechDur + f.frameDuration) :
      FrameStep e f (e', .none)
  | matures {e' : Endpointer} (hstate : e.state = .onset) (hloud : e.cfg.AboveOnset f)
      (hlong : e.cfg.minSpeechMs ≤ e.speechDur + f.frameDuration) (hnext : e'.state = .speaking) :
      FrameStep e f (e', .speechStarted)
  | falls {e' : Endpointer} (hstate : e.state = .onset) (hnext : e'.state = .quiet) :
      FrameStep e f (e', .falseStart)
  | wavers (hstate : e.state = .onset) (hband : ¬e.cfg.AboveOnset f)
      (hhigh : ¬e.cfg.BelowOffset f) : FrameStep e f (e, .none)
  | speaks {e' : Endpointer} (hstate : e.state = .speaking) (hnext : e'.state = .speaking) :
      FrameStep e f (e', .none)
  | pauses {e' : Endpointer} (hstate : e.state = .speaking) (hsoft : ¬e.cfg.AboveOnset f)
      (hlow : e.cfg.BelowOffset f) (hnext : e'.state = .endpoint)
      (hdur : e'.quietDur = f.frameDuration) : FrameStep e f (e', .none)
  | resumes {e' : Endpointer} (hstate : e.state = .endpoint) (hnext : e'.state = .speaking) :
      FrameStep e f (e', .none)
  | lingers {e' : Endpointer} (hstate : e.state = .endpoint) (hsoft : ¬e.cfg.AboveOnset f)
      (hnext : e'.state = .endpoint) (hdur : e'.quietDur = e.quietDur + f.frameDuration) :
      FrameStep e f (e', .none)
  | ends {e' : Endpointer} (hstate : e.state = .endpoint) (hsoft : ¬e.cfg.AboveOnset f)
      (hlong : e.cfg.hangoverMs ≤ e.quietDur + f.frameDuration) (hnext : e'.state = .quiet) :
      FrameStep e f (e', .speechEnded)

theorem frame_step (e : Endpointer) (f : VadFrame) : FrameStep e f (e.frame f) := by
  unfold frame
  cases hstate : e.state with
  | quiet =>
      simp only [onFrame, hstate]
      split
      next hloud => exact .rises hstate hloud rfl rfl
      next => exact .waits hstate
  | onset =>
      simp only [onFrame, hstate]
      split
      next hloud =>
        split
        next hlong => exact .matures hstate hloud hlong rfl
        next => exact .gathers hstate hloud rfl rfl
      next hband =>
        split
        next => exact .falls hstate rfl
        next hhigh => exact .wavers hstate hband hhigh
  | speaking =>
      simp only [onFrame, hstate]
      split
      next => exact .speaks hstate rfl
      next hsoft =>
        split
        next hlow => exact .pauses hstate hsoft hlow rfl rfl
        next => exact .speaks hstate rfl
  | endpoint =>
      simp only [onFrame, hstate]
      split
      next => exact .resumes hstate rfl
      next hsoft =>
        unfold extendQuiet
        split
        next hlong => exact .ends hstate hsoft hlong rfl
        next => exact .lingers hstate hsoft hstate rfl

variable {r : Endpointer × FrameOutcome}

theorem FrameStep.to_onset (h : FrameStep e f r) (hr : r.1.state = .onset) :
    (e.state = .quiet ∧ e.cfg.AboveOnset f ∧ r.1.speechDur = f.frameDuration) ∨
      (e.state = .onset ∧ e.cfg.AboveOnset f ∧ r.1.speechDur = e.speechDur + f.frameDuration) ∨
      (e.state = .onset ∧ ¬e.cfg.AboveOnset f ∧ ¬e.cfg.BelowOffset f ∧
        r.1.speechDur = e.speechDur) := by
  cases h with
  | rises hstate hloud _ hdur => exact .inl ⟨hstate, hloud, hdur⟩
  | gathers hstate hloud _ hdur => exact .inr (.inl ⟨hstate, hloud, hdur⟩)
  | wavers hstate hband hhigh => exact .inr (.inr ⟨hstate, hband, hhigh, rfl⟩)
  | _ => simp_all

theorem FrameStep.to_endpoint (h : FrameStep e f r) (hr : r.1.state = .endpoint) :
    (e.state = .speaking ∧ ¬e.cfg.AboveOnset f ∧ e.cfg.BelowOffset f ∧
        r.1.quietDur = f.frameDuration) ∨
      (e.state = .endpoint ∧ ¬e.cfg.AboveOnset f ∧
        r.1.quietDur = e.quietDur + f.frameDuration) := by
  cases h with
  | pauses hstate hsoft hlow _ hdur => exact .inl ⟨hstate, hsoft, hlow, hdur⟩
  | lingers hstate hsoft _ hdur => exact .inr ⟨hstate, hsoft, hdur⟩
  | _ => simp_all

theorem FrameStep.started (h : FrameStep e f r) (hr : r.2 = .speechStarted) :
    e.state = .onset ∧ e.cfg.AboveOnset f ∧ e.cfg.minSpeechMs ≤ e.speechDur + f.frameDuration := by
  cases h with
  | matures hstate hloud hlong _ => exact ⟨hstate, hloud, hlong⟩
  | _ => cases hr

theorem FrameStep.ended (h : FrameStep e f r) (hr : r.2 = .speechEnded) :
    e.state = .endpoint ∧ ¬e.cfg.AboveOnset f ∧
      e.cfg.hangoverMs ≤ e.quietDur + f.frameDuration := by
  cases h with
  | ends hstate hsoft hlong _ => exact ⟨hstate, hsoft, hlong⟩
  | _ => cases hr

theorem FrameStep.falseStart_iff (h : FrameStep e f r) :
    r.2 = .falseStart ↔ e.state = .onset ∧ r.1.state = .quiet := by
  cases h <;> simp_all

theorem after_cfg (e : Endpointer) (frames : List VadFrame) : (e.after frames).cfg = e.cfg := by
  induction frames using List.reverseRecOn with
  | nil => rfl
  | append_singleton frames f ih => rw [after_concat, frame_cfg, ih]

end

/-! ## What the states remember -/

/-- The state last left `Quiet` behind `before`, with the first frame of `candidate`. -/
structure LeftQuiet (e : Endpointer) (before candidate : List VadFrame) : Prop where
  quiet : (e.after before).state = .quiet
  away : ∀ n, 0 < n → n ≤ candidate.length →
    (e.after (before ++ candidate.take n)).state ≠ .quiet

/-- The first is below the offset, and none is at or above the onset. -/
structure QuietRun (cfg : EndpointerConfig) (frames : List VadFrame) : Prop where
  first : ∃ f rest, frames = f :: rest ∧ cfg.BelowOffset f
  soft : ∀ f ∈ frames, ¬cfg.AboveOnset f

theorem LeftQuiet.concat {e : Endpointer} {before candidate : List VadFrame}
    (h : LeftQuiet e before candidate) {f : VadFrame}
    (hnext : (e.after (before ++ (candidate ++ [f]))).state ≠ .quiet) :
    LeftQuiet e before (candidate ++ [f]) := by
  refine ⟨h.quiet, fun n hpos hn => ?_⟩
  by_cases hlast : n ≤ candidate.length
  · rw [List.take_append_of_le_length hlast]
    exact h.away n hpos hlast
  · have hall : (candidate ++ [f]).length ≤ n := by
      rw [List.length_append, List.length_singleton]
      omega
    rwa [List.take_of_length_le hall]

theorem QuietRun.concat {cfg : EndpointerConfig} {frames : List VadFrame}
    (h : QuietRun cfg frames) {f : VadFrame} (hsoft : ¬cfg.AboveOnset f) :
    QuietRun cfg (frames ++ [f]) := by
  obtain ⟨g, rest, rfl, hlow⟩ := h.first
  refine ⟨⟨g, rest ++ [f], rfl, hlow⟩, fun x hx => ?_⟩
  rcases List.mem_append.mp hx with hold | hnew
  · exact h.soft x hold
  · rwa [List.mem_singleton.mp hnew]

/-- What the state says about the frames so far. -/
structure Remembers (e : Endpointer) (frames : List VadFrame) : Prop where
  onset : (e.after frames).state = .onset → ∃ before candidate, frames = before ++ candidate ∧
    LeftQuiet e before candidate ∧ (∀ f ∈ candidate, ¬e.cfg.BelowOffset f) ∧
    (e.after frames).speechDur = e.cfg.loudMs candidate
  endpoint : (e.after frames).state = .endpoint → ∃ before run, frames = before ++ run ∧
    QuietRun e.cfg run ∧ (e.after frames).quietDur = totalMs run

theorem Remembers.concat {e : Endpointer} {frames : List VadFrame} (h : Remembers e frames)
    (hthr : e.cfg.offsetThreshold ≤ e.cfg.onsetThreshold) (f : VadFrame) :
    Remembers e (frames ++ [f]) := by
  have hstep := frame_step (e.after frames) f
  have hcfg := e.after_cfg frames
  have hlast := e.after_concat frames f
  have hloudHigh : e.cfg.AboveOnset f → ¬e.cfg.BelowOffset f :=
    fun hloud hlow => absurd (lt_of_lt_of_le hlow hthr) (not_lt_of_ge hloud)
  constructor
  · intro hnow
    have haway : (e.after (frames ++ [f])).state ≠ .quiet := by
      rw [hnow]
      exact EndpointerState.noConfusion
    rw [hlast] at hnow
    have hcases := hstep.to_onset hnow
    rw [hcfg, ← hlast] at hcases
    rcases hcases with ⟨hstate, hloud, hdur⟩ | ⟨hstate, hloud, hdur⟩ | ⟨hstate, hband, hhigh', hdur⟩
    · refine ⟨frames, [f], rfl, ⟨hstate, fun n hpos _ => ?_⟩, fun g hg => ?_, ?_⟩
      · rwa [List.take_of_length_le (by exact hpos)]
      · rw [List.mem_singleton.mp hg]
        exact hloudHigh hloud
      · rw [EndpointerConfig.loudMs_of_above hloud, hdur]
    · obtain ⟨before, candidate, rfl, hleft, hhigh, hspeech⟩ := h.onset hstate
      rw [List.append_assoc] at haway hdur ⊢
      refine ⟨before, candidate ++ [f], rfl, hleft.concat haway, ?_, ?_⟩
      · rw [List.forall_mem_append]
        exact ⟨hhigh, fun g hg => List.mem_singleton.mp hg ▸ hloudHigh hloud⟩
      · rw [EndpointerConfig.loudMs_append, EndpointerConfig.loudMs_of_above hloud, hdur, hspeech]
    · obtain ⟨before, candidate, rfl, hleft, hhigh, hspeech⟩ := h.onset hstate
      rw [List.append_assoc] at haway hdur ⊢
      refine ⟨before, candidate ++ [f], rfl, hleft.concat haway, ?_, ?_⟩
      · rw [List.forall_mem_append]
        exact ⟨hhigh, fun g hg => List.mem_singleton.mp hg ▸ hhigh'⟩
      · rw [EndpointerConfig.loudMs_append, EndpointerConfig.loudMs_of_not_above hband, hdur,
          hspeech, Int.add_zero]
  · intro hnow
    rw [hlast] at hnow
    have hcases := hstep.to_endpoint hnow
    rw [hcfg, ← hlast] at hcases
    rcases hcases with ⟨-, hsoft, hlow, hdur⟩ | ⟨hstate, hsoft, hdur⟩
    · refine ⟨frames, [f], rfl, ⟨⟨f, [], rfl, hlow⟩, fun g hg => ?_⟩, ?_⟩
      · rwa [List.mem_singleton.mp hg]
      · rw [totalMs_singleton, hdur]
    · obtain ⟨before, quiet, rfl, hrun, hquiet⟩ := h.endpoint hstate
      rw [List.append_assoc] at hdur ⊢
      refine ⟨before, quiet ++ [f], rfl, hrun.concat hsoft, ?_⟩
      rw [totalMs_append, totalMs_singleton, hdur, hquiet]

theorem remembers (cfg : EndpointerConfig) (hthr : cfg.offsetThreshold ≤ cfg.onsetThreshold)
    (frames : List VadFrame) : Remembers (create cfg) frames := by
  induction frames using List.reverseRecOn with
  | nil => exact ⟨EndpointerState.noConfusion, EndpointerState.noConfusion⟩
  | append_singleton frames f ih => exact ih.concat hthr f

/-! ## In speech -/

section

variable {e : Endpointer} {f : VadFrame}

theorem frame_outcome (e : Endpointer) (f : VadFrame) : Outcome e (e.frame f) :=
  onFrame_outcome _ _ _ _

theorem inSpeech_of_started (hout : (e.frame f).2 = .speechStarted) :
    (e.frame f).1.inSpeech = true := by
  have hstep := frame_outcome e f
  generalize e.frame f = r at hstep hout ⊢
  cases hstep with
  | speechStarted _ h => exact h
  | none | falseStart | speechEnded => cases hout

/-- In speech a frame ends it or changes nothing. -/
theorem frame_of_inSpeech (h : e.inSpeech = true) :
    (e.frame f).2 ≠ .speechStarted ∧ (e.frame f).2 ≠ .falseStart ∧
      ((e.frame f).2 ≠ .speechEnded → (e.frame f).1.inSpeech = true) := by
  have hstep := frame_outcome e f
  generalize e.frame f = r at hstep ⊢
  cases hstep with
  | none hsame => exact ⟨nofun, nofun, fun _ => hsame.trans h⟩
  | speechStarted hquiet _ => rw [h] at hquiet; cases hquiet
  | falseStart hquiet _ => rw [h] at hquiet; cases hquiet
  | speechEnded _ _ => exact ⟨nofun, nofun, fun hnot => absurd rfl hnot⟩

end

/-- Until it is ended, speech goes on. -/
theorem inSpeech_after {e : Endpointer} (h : e.inSpeech = true) (frames : List VadFrame)
    (hend : .speechEnded ∉ e.outcomes frames) : (e.after frames).inSpeech = true := by
  induction frames generalizing e with
  | nil => exact h
  | cons f frames ih =>
      have hfirst : (e.frame f).2 ≠ .speechEnded := fun heq =>
        hend (heq ▸ List.mem_cons_self)
      have hrest : .speechEnded ∉ (e.frame f).1.outcomes frames :=
        fun hmem => hend (List.mem_cons_of_mem _ hmem)
      have hall : e.after (f :: frames) = (e.frame f).1.after frames := rfl
      rw [hall]
      exact ih ((frame_of_inSpeech h).2.2 hfirst) hrest

/-! ## Soundness -/

/-- What `on_frame` may return for `f` behind `frames`. -/
structure TimingSound (cfg : EndpointerConfig) (frames : List VadFrame) (f : VadFrame) :
    Prop where
  started : (((create cfg).after frames).frame f).2 = .speechStarted →
    cfg.AboveOnset f ∧ ∃ before candidate, frames = before ++ candidate ∧
      LeftQuiet (create cfg) before candidate ∧
      (∀ g ∈ candidate ++ [f], ¬cfg.BelowOffset g) ∧
      cfg.minSpeechMs ≤ cfg.loudMs (candidate ++ [f])
  ended : (((create cfg).after frames).frame f).2 = .speechEnded →
    ∃ before run, frames ++ [f] = before ++ run ∧ 2 ≤ run.length ∧ QuietRun cfg run ∧
      cfg.hangoverMs ≤ totalMs run
  falseStart : (((create cfg).after frames).frame f).2 = .falseStart ↔
    ((create cfg).after frames).state = .onset ∧
      (((create cfg).after frames).frame f).1.state = .quiet
  exclusive : ∀ before g between, frames = before ++ g :: between →
    (((create cfg).after before).frame g).2 = .speechStarted →
    .speechEnded ∉ (((create cfg).after before).frame g).1.outcomes between →
    (((create cfg).after frames).frame f).2 ≠ .speechStarted ∧
      (((create cfg).after frames).frame f).2 ≠ .falseStart

/-- Whatever the frames, each outcome is backed by the frames before it. -/
theorem onFrame_timing_sound (cfg : EndpointerConfig)
    (hthr : cfg.offsetThreshold ≤ cfg.onsetThreshold) (frames : List VadFrame) (f : VadFrame) :
    TimingSound cfg frames f := by
  have hpast := remembers cfg hthr frames
  have hstep := frame_step ((create cfg).after frames) f
  have hcfg : ((create cfg).after frames).cfg = cfg := (create cfg).after_cfg frames
  refine ⟨fun hout => ?_, fun hout => ?_, hstep.falseStart_iff, ?_⟩
  · obtain ⟨hstate, hloud, hlong⟩ := hstep.started hout
    rw [hcfg] at hloud hlong
    obtain ⟨before, candidate, hsplit, hleft, hhigh, hspeech⟩ := hpast.onset hstate
    refine ⟨hloud, before, candidate, hsplit, hleft, ?_, ?_⟩
    · rw [List.forall_mem_append]
      refine ⟨hhigh, fun g hg => ?_⟩
      rw [List.mem_singleton.mp hg]
      exact fun hlow => absurd (lt_of_lt_of_le hlow hthr) (not_lt_of_ge hloud)
    · rw [EndpointerConfig.loudMs_append, EndpointerConfig.loudMs_of_above hloud]
      rw [hspeech] at hlong
      exact hlong
  · obtain ⟨hstate, hsoft, hlong⟩ := hstep.ended hout
    rw [hcfg] at hsoft hlong
    obtain ⟨before, quiet, hsplit, hrun, hquiet⟩ := hpast.endpoint hstate
    refine ⟨before, quiet ++ [f], ?_, ?_, hrun.concat hsoft, ?_⟩
    · rw [hsplit, List.append_assoc]
    · obtain ⟨g, rest, rfl, -⟩ := hrun.first
      simp
    · rw [totalMs_append, totalMs_singleton]
      rwa [hquiet] at hlong
  · rintro before g between rfl hstarted hnone
    have hspeech := inSpeech_of_started hstarted
    have hnow := inSpeech_after hspeech between hnone
    have hall : (create cfg).after (before ++ g :: between) =
        (((create cfg).after before).frame g).1.after between := after_append _ _ _
    rw [← hall] at hnow
    exact ⟨(frame_of_inSpeech hnow).1, (frame_of_inSpeech hnow).2.1⟩

theorem onFrame_timing_sound_default : TimingSound {} [⟨1, 150, 0⟩] ⟨1, 50, 150⟩ :=
  onFrame_timing_sound {} (by decide +kernel) _ _

/-- Speech starts at the minimum and ends in the band between the thresholds. -/
example : (create {}).outcomes [⟨1, 150, 0⟩, ⟨1, 50, 0⟩, ⟨0, 400, 0⟩, ⟨2 / 5, 200, 0⟩] =
    [.none, .speechStarted, .none, .speechEnded] := by decide +kernel

end Endpointer

end Acva.Audio

import Acva.Audio.EchoBlocks

/-! # The voice detector

The network wants windows of 512 samples, and the frames come in any length. What does not
fill a window waits for the next frame, so that the windows are cut from the stream of all
samples and it does not matter into what frames the stream was cut.
-/

namespace Acva.Audio

open Acva.Playback Acva.Runs

/-- The network over its recurrent state, which begins with zeros. -/
structure VadNetwork (σ : Type) where
  zeros : σ
  run : List ℚ → σ → ℚ × σ

def kWindowSamples16k : Nat := 512

/-- Without the session and the names of its tensors. -/
structure SileroVad (σ : Type) where
  state : σ
  scratch : List ℚ := []
  lastP : ℚ := 0

/-- Dividing by a power of two is exact. -/
def toFloat (s : Sample) : ℚ := s.toInt / 32768

namespace SileroVad

variable {σ : Type}

def fresh (net : VadNetwork σ) : SileroVad σ where
  state := net.zeros

/-- `run` and the `erase` behind it. -/
def runWindow (net : VadNetwork σ) (v : SileroVad σ) : SileroVad σ :=
  let (p, state) := net.run (v.scratch.take kWindowSamples16k) v.state
  { state := state, scratch := v.scratch.drop kWindowSamples16k, lastP := p }

/-- The loop over whole windows. -/
def runWindows (net : VadNetwork σ) : Nat → SileroVad σ → SileroVad σ
  | 0, v => v
  | fuel + 1, v =>
      if kWindowSamples16k ≤ v.scratch.length then runWindows net fuel (v.runWindow net) else v

/-- With as much fuel as there are samples. -/
def settle (net : VadNetwork σ) (v : SileroVad σ) : SileroVad σ :=
  runWindows net v.scratch.length v

def add (samples : List ℚ) (v : SileroVad σ) : SileroVad σ :=
  { v with scratch := v.scratch ++ samples }

def pushFrame (net : VadNetwork σ) (samples : List Sample) (v : SileroVad σ) :
    ℚ × SileroVad σ :=
  if samples = [] then (v.lastP, v)
  else
    let v := (v.add (samples.map toFloat)).settle net
    (v.lastP, v)

variable {net : VadNetwork σ} {v : SileroVad σ}

/-! ## The loop -/

@[simp] theorem add_scratch (samples : List ℚ) (v : SileroVad σ) :
    (v.add samples).scratch = v.scratch ++ samples := rfl

theorem add_add (samples more : List ℚ) (v : SileroVad σ) :
    (v.add samples).add more = v.add (samples ++ more) := by
  simp only [add, List.append_assoc]

theorem length_runWindow (net : VadNetwork σ) (h : kWindowSamples16k ≤ v.scratch.length) :
    (v.runWindow net).scratch.length + 512 = v.scratch.length := by
  have hdrop : (v.runWindow net).scratch.length = v.scratch.length - 512 := List.length_drop
  rw [kWindowSamples16k] at h
  omega

/-- The loop needs no more fuel than there are samples. -/
theorem runWindows_eq_settle {fuel : Nat} (h : v.scratch.length ≤ fuel) :
    runWindows net fuel v = v.settle net := by
  have hany : ∀ n fuel (v : SileroVad σ), v.scratch.length ≤ n → v.scratch.length ≤ fuel →
      runWindows net fuel v = runWindows net n v := by
    intro n
    induction n with
    | zero =>
        intro fuel v hn hfuel
        cases fuel with
        | zero => rfl
        | succ fuel => rw [runWindows, runWindows, if_neg (by rw [kWindowSamples16k]; omega)]
    | succ n ih =>
        intro fuel v hn hfuel
        cases fuel with
        | zero => rw [runWindows, runWindows, if_neg (by rw [kWindowSamples16k]; omega)]
        | succ fuel =>
            rw [runWindows, runWindows]
            split
            next hwhole =>
              have hlength := length_runWindow net hwhole
              exact ih fuel _ (by omega) (by omega)
            next => rfl
  exact hany _ fuel v (Nat.le_refl _) h

theorem settle_of_whole (h : kWindowSamples16k ≤ v.scratch.length) :
    v.settle net = (v.runWindow net).settle net := by
  have hlength := length_runWindow net h
  have hpos : v.scratch.length = (v.runWindow net).scratch.length + 511 + 1 := by omega
  rw [settle, hpos, runWindows, if_pos h]
  exact runWindows_eq_settle (by omega)

theorem settle_of_short (h : v.scratch.length < kWindowSamples16k) : v.settle net = v := by
  rw [settle]
  cases v.scratch.length with
  | zero => rfl
  | succ n => rw [runWindows, if_neg (Nat.not_le_of_lt h)]

/-- What comes behind does not change the windows before it. -/
theorem settle_add (net : VadNetwork σ) (more : List ℚ) (v : SileroVad σ) :
    (v.add more).settle net = ((v.settle net).add more).settle net := by
  by_cases hwhole : kWindowSamples16k ≤ v.scratch.length
  · have hlength := length_runWindow net hwhole
    have hone : (v.add more).runWindow net = (v.runWindow net).add more := by
      simp only [runWindow, add, List.take_append_of_le_length hwhole,
        List.drop_append_of_le_length hwhole]
    calc (v.add more).settle net = ((v.add more).runWindow net).settle net :=
          settle_of_whole (hwhole.trans (by simp))
      _ = ((v.runWindow net).add more).settle net := by rw [hone]
      _ = (((v.runWindow net).settle net).add more).settle net := settle_add net more _
      _ = ((v.settle net).add more).settle net := by rw [← settle_of_whole hwhole]
  · rw [settle_of_short (Nat.lt_of_not_le hwhole)]
termination_by v.scratch.length
decreasing_by omega

/-! ## The frames -/

theorem fresh_settle : (fresh net).settle net = fresh net := 
  settle_of_short (show 0 < 512 by decide)

theorem pushFrame_eq (samples : List Sample) (hsettled : v.settle net = v) :
    v.pushFrame net samples =
      (((v.add (samples.map toFloat)).settle net).lastP,
        (v.add (samples.map toFloat)).settle net) := by
  unfold pushFrame
  split
  next hnone =>
    have hadd : v.add ([].map toFloat) = v := by simp [add]
    rw [hnone, hadd, hsettled]
  next => rfl

theorem add_nil (v : SileroVad σ) : v.add [] = v := by simp [add]

theorem settle_settle (v : SileroVad σ) : (v.settle net).settle net = v.settle net := by
  have h := settle_add net [] v
  rw [add_nil, add_nil] at h
  exact h.symm

/-- A new detector that has heard the samples at once. -/
def heard (net : VadNetwork σ) (samples : List Sample) : SileroVad σ :=
  ((fresh net).add (samples.map toFloat)).settle net

/-- One more frame is as good as a longer stream. -/
theorem pushFrame_heard (samples more : List Sample) :
    (heard net samples).pushFrame net more =
      ((heard net (samples ++ more)).lastP, heard net (samples ++ more)) := by
  have hstream : heard net (samples ++ more) =
      ((heard net samples).add (more.map toFloat)).settle net := by
    rw [heard, List.map_append, ← add_add, settle_add]
    rfl
  rw [pushFrame_eq more (by exact settle_settle _), hstream]

end SileroVad

/-! ## In the pipeline -/

namespace AudioPipeline

variable {ρ σ : Type}

/-- The front end with the detector, if its model has loaded. -/
def withSilero (soxr : List Sample → ρ → List Sample × ρ)
    (apm : List Sample → TimePoint → ρ → List Sample × ρ) (net : VadNetwork σ) :
    FrontEnd (ρ × SileroVad σ) where
  soxr := fun samples r => ((soxr samples r.1).1, (soxr samples r.1).2, r.2)
  apm := fun block t r => ((apm block t r.1).1, (apm block t r.1).2, r.2)
  vad := some fun chunk r => ((r.2.pushFrame net chunk).1, r.1, (r.2.pushFrame net chunk).2)

/-- What the endpointer was given: the samples up to then, the override and the
probability. -/
structure VadCall where
  heard : List Sample
  testProbability : ℚ
  probability : ℚ

structure VadLog where
  heard : List Sample := []
  calls : List VadCall := []

def VadLog.note (ext : FrontEnd ρ) (l : VadLog) (p : AudioPipeline ρ) : PipelineAction → VadLog
  | .frame frame =>
      match p.prepare ext frame with
      | some (chunk, q, _) =>
          if chunk = [] then l
          else
            { heard := l.heard ++ chunk
              calls := l.calls ++
                [⟨l.heard ++ chunk, q.testProbability,
                  (q.hear ext chunk frame.capturedAt).1.lastVadP⟩] }
      | none => l
  | _ => l

variable {soxr : List Sample → ρ → List Sample × ρ}
  {apm : List Sample → TimePoint → ρ → List Sample × ρ} {net : VadNetwork σ}
  {p q : AudioPipeline (ρ × SileroVad σ)}

/-- The detector in the front end. -/
def silero (p : AudioPipeline (ρ × SileroVad σ)) : SileroVad σ := p.frontEnd.2

theorem cleanBlocks_silero (n : Nat) (t : TimePoint) (fuel : Nat)
    (c : Cleaning (ρ × SileroVad σ)) :
    (cleanBlocks (withSilero soxr apm net) n t fuel c).frontEnd.2 = c.frontEnd.2 := by
  induction fuel generalizing c with
  | zero => rfl
  | succ fuel ih =>
      rw [cleanBlocks]
      split
      · exact ih _
      · rfl

/-- The resampler and the echo canceller leave the detector alone. -/
theorem prepare_silero {frame : AudioFrame} {chunk : List Sample} {outs : List PipelineOutput}
    (h : p.prepare (withSilero soxr apm net) frame = some (chunk, q, outs)) :
    q.silero = p.silero := by
  have hresample : ((withSilero soxr apm net).resample frame.samples p.frontEnd).2.2 =
      p.frontEnd.2 := by
    unfold FrontEnd.resample
    split <;> rfl
  simp only [prepare] at h
  split at h
  · cases h
    exact hresample
  · split at h
    · cases h
    · cases h
      exact (cleanBlocks_silero _ _ _ _).trans hresample

theorem onOutcome_frontEnd (outcome : FrameOutcome) (chunk : List Sample)
    (t : TimePoint) (p : AudioPipeline ρ) :
    (p.onOutcome outcome chunk t).1.frontEnd = p.frontEnd := by
  cases outcome with
  | none => rfl
  | speechStarted => rfl
  | falseStart => rfl
  | speechEnded =>
      simp only [onOutcome, endUtterance, offerSlice]
      split
      · rfl
      · split <;> rfl

theorem processChunk_frontEnd (ext : FrontEnd ρ) (chunk : List Sample) (t : TimePoint)
    (p : AudioPipeline ρ) :
    (p.processChunk ext chunk t).1.frontEnd = (p.hear ext chunk t).1.frontEnd :=
  onOutcome_frontEnd _ _ _ _

/-- The detector hears the chunk, and the endpointer its probability or the override. -/
theorem hear_silero (soxr : List Sample → ρ → List Sample × ρ)
    (apm : List Sample → TimePoint → ρ → List Sample × ρ) (net : VadNetwork σ)
    (chunk : List Sample) (t : TimePoint) (q : AudioPipeline (ρ × SileroVad σ)) :
    (q.hear (withSilero soxr apm net) chunk t).1.silero = (q.silero.pushFrame net chunk).2 ∧
      (q.hear (withSilero soxr apm net) chunk t).1.lastVadP =
        if 0 ≤ q.testProbability then q.testProbability
        else (q.silero.pushFrame net chunk).1 := by
  by_cases hover : 0 ≤ q.testProbability <;>
    simp [hear, updateVad, withSilero, overrideVad, silero, hover]

/-- The detector is as if it had heard everything at once, and so was it at each call. -/
structure HearsStream (net : VadNetwork σ) (p : AudioPipeline (ρ × SileroVad σ)) (l : VadLog) :
    Prop where
  detector : p.silero = SileroVad.heard net l.heard
  calls : ∀ call ∈ l.calls, call.probability =
    if 0 ≤ call.testProbability then call.testProbability
    else (SileroVad.heard net call.heard).lastP

theorem HearsStream.frame {frame : AudioFrame} {outs : List PipelineOutput} {l : VadLog}
    (hi : HearsStream net p l)
    (h : p.processFrame (withSilero soxr apm net) frame = some (q, outs)) :
    HearsStream net q (l.note (withSilero soxr apm net) p (.frame frame)) := by
  unfold processFrame at h
  split at h
  · cases h
  next chunk r more hprepare =>
    have hsame := prepare_silero hprepare
    simp only [VadLog.note, hprepare]
    split at h
    next hempty =>
      cases h
      rw [if_pos hempty]
      exact ⟨hsame.trans hi.detector, hi.calls⟩
    next hsome =>
      cases h
      rw [if_neg hsome]
      obtain ⟨hdetector, hprobability⟩ :=
        hear_silero soxr apm net chunk frame.capturedAt r
      rw [hsame, hi.detector, SileroVad.pushFrame_heard] at hdetector hprobability
      refine ⟨?_, fun call hcall => ?_⟩
      · exact (congrArg Prod.snd (processChunk_frontEnd _ _ _ _)).trans hdetector
      · rcases List.mem_append.mp hcall with hold | hnew
        · exact hi.calls call hold
        · rw [List.mem_singleton.mp hnew]
          exact hprobability

/-- Whatever the frames are and however soxr and the echo canceller cut them, the endpointer
is given what the network says of the stream up to then, with or without a live sink. -/
theorem run_hearsStream {cfg : PipelineConfig} {aecActive liveSink : Bool} {frontEnd : ρ}
    {acts : List PipelineAction} {l : VadLog}
    (hrun : run (watch (step (withSilero soxr apm net)) (VadLog.note (withSilero soxr apm net)))
      ({ create cfg aecActive (frontEnd, SileroVad.fresh net) with liveSink := liveSink }, {})
      acts = some (p, l)) :
    HearsStream net p l := by
  have hstart : HearsStream net
      { create cfg aecActive (frontEnd, SileroVad.fresh net) with liveSink := liveSink } {} := by
    refine ⟨?_, fun call hcall => absurd hcall List.not_mem_nil⟩
    rw [SileroVad.heard, List.map_nil, SileroVad.add_nil, SileroVad.fresh_settle]
    rfl
  refine run_preserves (fun w => HearsStream net w.1 w.2) (fun w a w' hw hs => ?_) hrun
    hstart
  obtain ⟨hstep, hnote⟩ := watch_eq_some.mp hs
  rw [hnote]
  cases a with
  | frame frame =>
      obtain ⟨⟨q, outs⟩, hframe, hq⟩ := Option.map_eq_some_iff.mp hstep
      rw [← hq]
      exact hw.frame hframe
  | setTestProbability probability =>
      rw [← Option.some.inj hstep]
      exact ⟨hw.detector, hw.calls⟩
  | release ref =>
      rw [← Option.some.inj hstep]
      exact ⟨hw.detector, hw.calls⟩

/-- A network that counts its windows. -/
def counting : VadNetwork Nat where
  zeros := 0
  run _ n := (n + 1, n + 1)

def passCounting : FrontEnd (Unit × SileroVad Nat) :=
  withSilero (fun samples r => (samples, r)) (fun block _ r => (block, r)) counting

/-- The first window ends within the second frame. -/
theorem run_hearsStream_twoFrames :
    ∃ p l, run (watch (step passCounting) (VadLog.note passCounting))
      ({ create {} false ((), SileroVad.fresh counting) with liveSink := true }, {})
        [.frame ⟨List.replicate 300 1, 0⟩, .frame ⟨List.replicate 300 2, 0⟩] = some (p, l) ∧
      l.calls.map VadCall.probability = [0, 1] ∧ HearsStream counting p l := by
  have hends : (run (watch (step passCounting) (VadLog.note passCounting))
      ({ create {} false ((), SileroVad.fresh counting) with liveSink := true }, {})
        [.frame ⟨List.replicate 300 1, 0⟩, .frame ⟨List.replicate 300 2, 0⟩]).map
          (fun w => w.2.calls.map VadCall.probability) = some [0, 1] := by
    decide +kernel
  obtain ⟨⟨p, l⟩, hrun, hcalls⟩ := Option.map_eq_some_iff.mp hends
  exact ⟨p, l, hrun, hcalls, run_hearsStream hrun⟩

end AudioPipeline

end Acva.Audio

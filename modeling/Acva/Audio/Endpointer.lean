import Acva.Event.Event
import Mathlib.Algebra.Order.Field.Rat

/-! # The endpointer

Four states driven by the speech probability of each frame. Probabilities and
thresholds are exact rationals here and floats in the source.
-/

namespace Acva.Audio

/-- Durations are in milliseconds. -/
structure EndpointerConfig where
  onsetThreshold : ℚ := 1 / 2
  offsetThreshold : ℚ := 35 / 100
  minSpeechMs : Int := 200
  hangoverMs : Int := 600

inductive EndpointerState
  | quiet
  | onset
  | speaking
  | endpoint
deriving DecidableEq, Repr

inductive FrameOutcome
  | none
  | speechStarted
  | falseStart
  | speechEnded
deriving DecidableEq, Repr

structure Endpointer where
  cfg : EndpointerConfig := {}
  state : EndpointerState := .quiet
  speechDur : Int := 0
  quietDur : Int := 0
  startedAt : TimePoint := 0
  endedAt : TimePoint := 0

namespace Endpointer

/-- One more frame of quiet in `Endpoint`, which the hangover may end. -/
def extendQuiet (frameDuration : Int) (e : Endpointer) : Endpointer × FrameOutcome :=
  if e.cfg.hangoverMs ≤ e.quietDur + frameDuration then
    ({ e with state := .quiet, quietDur := e.quietDur + frameDuration }, .speechEnded)
  else ({ e with quietDur := e.quietDur + frameDuration }, .none)

def onFrame (vadProbability : ℚ) (frameDuration : Int) (frameTime : TimePoint)
    (e : Endpointer) : Endpointer × FrameOutcome :=
  match e.state with
  | .quiet =>
      if e.cfg.onsetThreshold ≤ vadProbability then
        ({ e with
          state := .onset
          speechDur := frameDuration
          quietDur := 0
          startedAt := frameTime }, .none)
      else (e, .none)
  | .onset =>
      if e.cfg.onsetThreshold ≤ vadProbability then
        let e := { e with speechDur := e.speechDur + frameDuration }
        if e.cfg.minSpeechMs ≤ e.speechDur then
          ({ e with state := .speaking, quietDur := 0 }, .speechStarted)
        else (e, .none)
      else if vadProbability < e.cfg.offsetThreshold then
        ({ e with state := .quiet, speechDur := 0, quietDur := 0, startedAt := 0 }, .falseStart)
      else (e, .none)
  | .speaking =>
      if e.cfg.onsetThreshold ≤ vadProbability then
        ({ e with speechDur := e.speechDur + frameDuration, quietDur := 0 }, .none)
      else if vadProbability < e.cfg.offsetThreshold then
        ({ e with state := .endpoint, quietDur := frameDuration, endedAt := frameTime }, .none)
      else ({ e with speechDur := e.speechDur + frameDuration }, .none)
  | .endpoint =>
      if e.cfg.onsetThreshold ≤ vadProbability then
        ({ e with
          state := .speaking
          speechDur := e.speechDur + frameDuration
          quietDur := 0
          endedAt := 0 }, .none)
      -- below the offset and in the band between the thresholds alike
      else e.extendQuiet frameDuration

/-- Between a `SpeechStarted` and its `SpeechEnded`. -/
def inSpeech (e : Endpointer) : Bool := e.state = .speaking || e.state = .endpoint

/-- Each outcome tells on which side of it the endpointer is in speech. -/
inductive Outcome (e : Endpointer) : Endpointer × FrameOutcome → Prop
  | none {e' : Endpointer} (h : e'.inSpeech = e.inSpeech) : Outcome e (e', .none)
  | speechStarted {e' : Endpointer} (hquiet : e.inSpeech = false) (h : e'.inSpeech = true) :
      Outcome e (e', .speechStarted)
  | falseStart {e' : Endpointer} (hquiet : e.inSpeech = false) (h : e'.inSpeech = false) :
      Outcome e (e', .falseStart)
  | speechEnded {e' : Endpointer} (hspeech : e.inSpeech = true) (h : e'.inSpeech = false) :
      Outcome e (e', .speechEnded)

theorem onFrame_outcome (p : ℚ) (d : Int) (t : TimePoint) (e : Endpointer) :
    Outcome e (e.onFrame p d t) := by
  cases hstate : e.state with
  | quiet =>
      simp only [onFrame, hstate]
      split
      · exact .none (by simp [inSpeech, hstate])
      · exact .none rfl
  | onset =>
      simp only [onFrame, hstate]
      split
      · split
        · exact .speechStarted (by simp [inSpeech, hstate]) rfl
        · exact .none (by simp [inSpeech, hstate])
      · split
        · exact .falseStart (by simp [inSpeech, hstate]) rfl
        · exact .none rfl
  | speaking =>
      simp only [onFrame, hstate]
      split
      · exact .none (by simp [inSpeech, hstate])
      · split
        · exact .none (by simp [inSpeech, hstate])
        · exact .none (by simp [inSpeech, hstate])
  | endpoint =>
      simp only [onFrame, hstate]
      split
      · exact .none (by simp [inSpeech, hstate])
      · unfold extendQuiet
        split
        · exact .speechEnded (by simp [inSpeech, hstate]) rfl
        · exact .none (by simp [inSpeech, hstate])

end Endpointer

end Acva.Audio

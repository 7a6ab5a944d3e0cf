import Acva.Dialogue.Fsm.Machine

/-! # The barge-in detector

Promotes a `SpeechStarted` heard while the assistant is speaking into a
`UserInterrupted`. It runs on its own subscription thread and reads the machine
through a snapshot, so what it publishes depends on when the snapshot is taken.
The comparison of the measured ERLE with its threshold is an input.
-/

namespace Acva.Dialogue

structure BargeInConfig where
  enabled : Bool := true
  requireAecConverged : Bool := true
  coolDownAfterTurnMs : Int := 300
deriving DecidableEq, Repr

/-- What the detector reads from the in-process APM. `erleMeets` is
`erle_meets(apm, min_aec_erle_db)`, false on a NaN reading. -/
structure Apm where
  aecActive : Bool
  erleMeets : Bool
deriving DecidableEq, Repr

structure BargeInDetector where
  cfg : BargeInConfig := {}
  systemAecActive : Bool := false
  firesTotal : Nat := 0
  suppressedTotal : Nat := 0
  suppressedCooldown : Nat := 0
  suppressedAec : Nat := 0
  lastFiredNs : TimePoint := 0
  lastFiredTurn : TurnId := kNoTurn
deriving DecidableEq, Repr

namespace BargeInDetector

def nsPerMs : Int := 1000000

/-- The gate on echo cancellation, with the miss counted per cause. -/
def aecOk (apm : Option Apm) (d : BargeInDetector) : Bool × BargeInDetector :=
  if d.cfg.requireAecConverged = false then (true, d)
  else if d.systemAecActive = true then (true, d)
  else
    match apm with
    | none => (false, { d with suppressedAec := d.suppressedAec + 1 })
    | some a =>
        if a.aecActive = true ∧ a.erleMeets = true then (true, d)
        else (false, { d with suppressedAec := d.suppressedAec + 1 })

/-- `fired` is the event published on the bus, if any. -/
def onSpeechStarted (snap : FsmSnapshot) (now : TimePoint) (apm : Option Apm)
    (d : BargeInDetector) : BargeInDetector × Option UserInterrupted :=
  if snap.state ≠ .speaking then (d, none)
  else if snap.activeTurn = kNoTurn then (d, none)
  else if d.lastFiredTurn = snap.activeTurn then (d, none)
  else if (now - snap.enteredSpeakingAt).tdiv nsPerMs < d.cfg.coolDownAfterTurnMs then
    ({ d with
      suppressedCooldown := d.suppressedCooldown + 1
      suppressedTotal := d.suppressedTotal + 1 }, none)
  else
    match d.aecOk apm with
    | (false, d) => ({ d with suppressedTotal := d.suppressedTotal + 1 }, none)
    | (true, d) =>
        ({ d with
          lastFiredTurn := snap.activeTurn
          lastFiredNs := now
          firesTotal := d.firesTotal + 1 }, some { turn := snap.activeTurn, ts := now })

/-- Rapid further `SpeechStarted` events of the same turn do not fire again. -/
theorem onSpeechStarted_refires {snap : FsmSnapshot} {d : BargeInDetector} (now : TimePoint)
    (apm : Option Apm) (h : d.lastFiredTurn = snap.activeTurn) :
    d.onSpeechStarted snap now apm = (d, none) := by
  simp [onSpeechStarted, h]

end BargeInDetector

end Acva.Dialogue

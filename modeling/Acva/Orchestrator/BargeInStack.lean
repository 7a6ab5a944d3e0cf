import Acva.Dialogue.BargeIn
import Acva.Orchestrator.DialogueStack
import Acva.Orchestrator.TtsStack

/-! # The stack that a barge-in goes through

The state machine, the barge-in detector, the manager, the bridge and playback on
one bus. The bus pushes an event into one subscriber's queue after the other and
two publishers may overtake each other, so a subscriber may take any event that
was published; the order of publication is one of the orders. Components outside
publish what they like.
-/

namespace Acva.Orchestrator

open Acva.Audio Acva.Dialogue Acva.Runs

/-- An event on the bus, and the turn of the interruption that it was published on. No handler
reads the latter. -/
structure Message where
  event : Event
  cause : Option TurnId := none
deriving DecidableEq, Repr

def interruptedTurn : Event → Option TurnId
  | .userInterrupted e => some e.turn
  | _ => none

/-- The turn of the interruption that is handled with the message. -/
def Message.interruption (m : Message) : Option TurnId := (interruptedTurn m.event).or m.cause

structure BargeInStack (ρ : Type) where
  dialogue : DialogueStack := {}
  detector : BargeInDetector := {}
  /-- What the detector has decided on and not published yet. -/
  fired : Option UserInterrupted := none
  tts : TtsStack ρ := {}
  bus : List Message := []

inductive BargeInAction
  /-- A component outside publishes. -/
  | publish (e : Event)
  | fsmTakes (now : TimePoint) (m : Message)
  | managerTakes (now : TimePoint) (gateOpen : Bool) (m : Message)
  | detectorTakes (now : TimePoint) (apm : Option Apm) (m : Message)
  | detectorPublishes
  | bridgeTakes (m : Message)
  /-- The machine starts, or the manager's I/O thread moves. -/
  | dialogue (a : StackAction)
  /-- Another thread of the bridge or of playback moves. -/
  | tts (a : TtsAction)
deriving DecidableEq, Repr

/-- The actions by which the stack's subscribers take an event. -/
def takesEvent : StackAction → Bool
  | .fsmEvent _ _ => true
  | .managerEvent _ _ _ => true
  | _ => false

namespace BargeInStack

variable {ρ : Type}

def fsm (s : BargeInStack ρ) : Fsm := s.dialogue.host.fsm

def manager (s : BargeInStack ρ) : Manager := s.dialogue.manager

def bridge (s : BargeInStack ρ) : TtsBridge ρ := s.tts.bridge

def queue (s : BargeInStack ρ) : Playback.PlaybackQueue := s.tts.output.queue

/-- The events that a component has published since. -/
def newEvents (before after : List Event) : List Event := after.drop before.length

/-- What the dialogue publishes goes on the bus, for the interruption that it handles. -/
def onDialogue (cause : Option TurnId) (d : DialogueStack) (s : BargeInStack ρ) :
    BargeInStack ρ :=
  { s with
    dialogue := d
    bus := s.bus ++
      (newEvents s.fsm.published d.host.fsm.published ++
        newEvents s.manager.published d.manager.published).map (⟨·, cause⟩) }

def onTts (t : TtsStack ρ) (s : BargeInStack ρ) : BargeInStack ρ :=
  { s with
    tts := t
    bus := s.bus ++
      (newEvents s.bridge.published t.bridge.published ++
        (t.output.relayed.drop s.tts.output.relayed.length).map Event.playbackFinished).map
          (⟨·, none⟩) }

/-- The detector's handler up to the publication. -/
def detect (now : TimePoint) (apm : Option Apm) (s : BargeInStack ρ) : BargeInStack ρ :=
  let (detector, fired) := s.detector.onSpeechStarted s.fsm.snapshot now apm
  { s with detector := detector, fired := fired }

def step (soxr : Soxr ρ) (s : BargeInStack ρ) : BargeInAction → Option (BargeInStack ρ)
  | .publish e => some { s with bus := s.bus ++ [{ event := e }] }
  | .fsmTakes now m =>
      if m ∈ s.bus then
        (s.dialogue.step (.fsmEvent now m.event)).map (s.onDialogue m.interruption ·)
      else none
  | .managerTakes now gateOpen m =>
      if m ∈ s.bus then
        (s.dialogue.step (.managerEvent now gateOpen m.event)).map (s.onDialogue m.interruption ·)
      else none
  | .detectorTakes now apm m =>
      if m ∈ s.bus ∧ m.event.kind = .speechStarted ∧ s.detector.cfg.enabled = true ∧
          s.fired = none then
        some (s.detect now apm)
      else none
  | .detectorPublishes =>
      s.fired.map fun i =>
        { s with fired := none, bus := s.bus ++ [{ event := .userInterrupted i }] }
  | .bridgeTakes m =>
      if m ∈ s.bus then (s.tts.step soxr (.event m.event)).map (s.onTts ·) else none
  | .dialogue a =>
      if takesEvent a = true then none else (s.dialogue.step a).map (s.onDialogue none ·)
  | .tts (.event _) => none
  | .tts a => (s.tts.step soxr a).map (s.onTts ·)

/-- What a step does. -/
inductive Step (soxr : Soxr ρ) (s : BargeInStack ρ) : BargeInAction → BargeInStack ρ → Prop
  | publish (e : Event) : Step soxr s (.publish e) { s with bus := s.bus ++ [{ event := e }] }
  | fsmTakes (now : TimePoint) (m : Message) (hmem : m ∈ s.bus) :
      Step soxr s (.fsmTakes now m) (s.onDialogue m.interruption
        { s.dialogue with host := s.dialogue.host.onEvent now m.event })
  | managerTakes (now : TimePoint) (gateOpen : Bool) (m : Message) (hmem : m ∈ s.bus) :
      Step soxr s (.managerTakes now gateOpen m) (s.onDialogue m.interruption
        (s.dialogue.onManager (s.manager.onEvent now gateOpen m.event)))
  | detectorTakes (now : TimePoint) (apm : Option Apm) (m : Message) (hmem : m ∈ s.bus)
      (hidle : s.fired = none) : Step soxr s (.detectorTakes now apm m) (s.detect now apm)
  | detectorPublishes (i : UserInterrupted) (hfired : s.fired = some i) :
      Step soxr s .detectorPublishes
        { s with fired := none, bus := s.bus ++ [{ event := .userInterrupted i }] }
  | bridgeTakes (m : Message) (b' : TtsBridge ρ) (hmem : m ∈ s.bus)
      (hb : s.bridge.onEvent m.event = some b') :
      Step soxr s (.bridgeTakes m) (s.onTts (s.tts.onBridge b'))
  | dialogue (a : StackAction) (d : DialogueStack) (hown : takesEvent a = false)
      (hd : s.dialogue.step a = some d) : Step soxr s (.dialogue a) (s.onDialogue none d)
  | tts (a : TtsAction) (t : TtsStack ρ) (hown : ∀ e, a ≠ .event e)
      (ht : s.tts.step soxr a = some t) : Step soxr s (.tts a) (s.onTts t)

theorem step_eq_some {soxr : Soxr ρ} {s s' : BargeInStack ρ} {a : BargeInAction}
    (h : s.step soxr a = some s') : Step soxr s a s' := by
  cases a with
  | publish e =>
      cases h
      exact .publish e
  | fsmTakes now m =>
      simp only [step] at h
      split at h
      next hmem =>
        cases h
        exact .fsmTakes now m hmem
      next => cases h
  | managerTakes now gateOpen m =>
      simp only [step] at h
      split at h
      next hmem =>
        cases h
        exact .managerTakes now gateOpen m hmem
      next => cases h
  | detectorTakes now apm m =>
      simp only [step] at h
      split at h
      next hready =>
        cases h
        exact .detectorTakes now apm m hready.1 hready.2.2.2
      next => cases h
  | detectorPublishes =>
      obtain ⟨i, hfired, rfl⟩ := Option.map_eq_some_iff.mp h
      exact .detectorPublishes i hfired
  | bridgeTakes m =>
      simp only [step] at h
      split at h
      next hmem =>
        obtain ⟨t, ht, rfl⟩ := Option.map_eq_some_iff.mp h
        obtain ⟨b', hb, rfl⟩ := Option.map_eq_some_iff.mp ht
        exact .bridgeTakes m b' hmem hb
      next => cases h
  | dialogue a =>
      simp only [step] at h
      split at h
      next => cases h
      next hown =>
        obtain ⟨d, hd, rfl⟩ := Option.map_eq_some_iff.mp h
        exact .dialogue a d (Bool.not_eq_true _ ▸ hown) hd
  | tts a =>
      have hown : ∀ e, a ≠ .event e := by
        rintro e rfl
        cases h
      have hmap : (s.tts.step soxr a).map (s.onTts ·) = some s' := by
        cases a <;> first | exact h | exact absurd rfl (hown _)
      obtain ⟨t, ht, rfl⟩ := Option.map_eq_some_iff.mp hmap
      exact .tts a t hown ht

/-- The stack as it is built, once it is started. -/
def initial (cfg : BargeInConfig) (systemAecActive : Bool) (managerCfg : ManagerConfig)
    (deviceRate maxQueueChunks prefillTargetSamples : Nat) : BargeInStack ρ where
  dialogue := { manager := { cfg := managerCfg } }
  detector := { cfg := cfg, systemAecActive := systemAecActive }
  tts := .initial deviceRate maxQueueChunks prefillTargetSamples

end BargeInStack

end Acva.Orchestrator

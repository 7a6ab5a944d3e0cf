import Acva.Core.Runs
import Acva.Dialogue.TtsBridge.Calculus
import Acva.Playback.Engine

/-! # The wired TTS stack

The bridge and the playback engine share the queue; the bridge alone enqueues.
The bridge's two threads, the audio callback and whoever sets the active turn
move in any order.
-/

namespace Acva.Orchestrator

open Acva.Audio Acva.Dialogue Acva.Playback Acva.Runs

structure TtsStack (ρ : Type) where
  bridge : TtsBridge ρ := {}
  output : AudioOutput := {}

inductive TtsAction
  /-- The subscriber thread takes an event. -/
  | event (e : Event)
  /-- The subscriber thread moves inside `on_user_interrupted`. -/
  | handler
  | io
  | submit (e : SubmitEvent)
  | unsubscribe
  | stop
  | output (a : OutputAction)
deriving DecidableEq, Repr

namespace TtsStack

variable {ρ : Type}

def onBridge (s : TtsStack ρ) (b : TtsBridge ρ) : TtsStack ρ := { s with bridge := b }

/-- The queue belongs to both. -/
def onQueue (s : TtsStack ρ) (r : TtsBridge ρ × PlaybackQueue) : TtsStack ρ :=
  { bridge := r.1, output := { s.output with queue := r.2 } }

def step (soxr : Soxr ρ) (s : TtsStack ρ) : TtsAction → Option (TtsStack ρ)
  | .event e => (s.bridge.onEvent e).map s.onBridge
  | .handler => (s.bridge.handlerStep s.output.queue).map s.onQueue
  | .io => (s.bridge.ioStep soxr s.output.queue).map s.onQueue
  | .submit e => (s.bridge.onSubmit soxr e).map s.onBridge
  | .unsubscribe => s.bridge.unsubscribe.map s.onBridge
  | .stop => s.bridge.stop.map s.onBridge
  | .output (.enqueue _) => none
  | .output a => (s.output.step a).map fun output => { s with output := output }

/-- Playback alone moves, and it never enqueues. -/
theorem step_output_eq_some {soxr : Soxr ρ} {s s' : TtsStack ρ} {a : OutputAction}
    (h : s.step soxr (.output a) = some s') :
    (∀ chunk, a ≠ .enqueue chunk) ∧
      ∃ o', s.output.step a = some o' ∧ s' = { s with output := o' } := by
  have hown : ∀ chunk, a ≠ .enqueue chunk := by
    rintro chunk rfl
    cases h
  have hmap : (s.output.step a).map (fun output => { s with output := output }) = some s' := by
    cases a <;> first | exact h | exact absurd rfl (hown _)
  obtain ⟨o', ho, rfl⟩ := Option.map_eq_some_iff.mp hmap
  exact ⟨hown, o', ho, rfl⟩

/-- The stack as it is built, once it is started. -/
def initial (deviceRate maxQueueChunks prefillTargetSamples : Nat) : TtsStack ρ where
  bridge := { deviceRate := deviceRate }
  output :=
    { engine := { prefillTargetSamples := prefillTargetSamples }
      queue := { cap := maxQueueChunks } }

end TtsStack

end Acva.Orchestrator

import Acva.Core.Runs
import Acva.Dialogue.Fsm.Calculus
import Acva.Dialogue.Manager.Machine

/-! # The wired dialogue stack

The state machine and the manager share one turn factory. The manager asks the
machine's snapshot for the turn of a reply, and tells playback which turn it is
before it publishes `LlmStarted`. The machine's worker, the manager's worker and
the manager's I/O thread move in any order; an event may be handled at any time.
-/

namespace Acva.Orchestrator

open Acva.Dialogue Acva.Runs

structure DialogueStack where
  host : FsmHost := {}
  manager : Manager := {}
  playbackActiveTurn : TurnId := kNoTurn
deriving DecidableEq, Repr

/-- One step of one thread. `mint` is a turn minted by a component outside the stack. -/
inductive StackAction
  | fsmStart (now : TimePoint)
  | fsmEvent (now : TimePoint) (e : Event)
  | managerEvent (now : TimePoint) (gateOpen : Bool) (e : Event)
  | requestStop
  | takeJob
  | askProvider
  | fixTurn
  | runHook
  | startStream
  | token (delta : Bytes)
  | finishStream (tokensGenerated : Nat)
  | abortStream
  | mint
deriving DecidableEq, Repr

namespace DialogueStack

/-- `set_active_turn_provider`: the machine's snapshot. -/
def activeTurnProvider (s : DialogueStack) : TurnId := s.host.fsm.snapshot.activeTurn

def onManager (s : DialogueStack) (m : Manager) : DialogueStack := { s with manager := m }

def step (s : DialogueStack) : StackAction → Option DialogueStack
  | .fsmStart now =>
      if s.host.fsm.state = .idle then some { s with host := s.host.start now } else none
  | .fsmEvent now e => some { s with host := s.host.onEvent now e }
  | .managerEvent now gateOpen e => some (s.onManager (s.manager.onEvent now gateOpen e))
  | .requestStop => some (s.onManager s.manager.requestStop)
  | .takeJob => s.manager.takeJob.map s.onManager
  | .askProvider => (s.manager.askProvider s.activeTurnProvider).map s.onManager
  | .fixTurn =>
      (s.manager.fixTurn s.host.turns).map fun (m, turns) =>
        { s with manager := m, host := { s.host with turns := turns } }
  | .runHook => s.manager.runHook.map fun (m, t) => { s with manager := m, playbackActiveTurn := t }
  | .startStream => s.manager.startStream.map s.onManager
  | .token delta => (s.manager.onToken delta).map s.onManager
  | .finishStream n => (s.manager.finishStream n).map s.onManager
  | .abortStream => s.manager.abortStream.map s.onManager
  | .mint => some { s with host := { s.host with turns := s.host.turns.mint.2 } }

end DialogueStack

end Acva.Orchestrator

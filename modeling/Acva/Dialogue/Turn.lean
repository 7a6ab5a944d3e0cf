import Acva.Event.Event

/-! # Turn contexts and the turn factory

One factory serves the whole process: the FSM mints from it, and the dialogue
manager mints from it or adopts an id that the FSM minted. Every context owns a
fresh cancellation token; tokens are shared only between the holders of one
context, so a context carries the state of its own token.
-/

namespace Acva.Dialogue

/-- A single flag, flipped from one direction. -/
structure CancellationToken where
  cancelled : Bool := false
deriving DecidableEq, Repr

namespace CancellationToken

def cancel (_ : CancellationToken) : CancellationToken := { cancelled := true }

def isCancelled (t : CancellationToken) : Bool := t.cancelled

end CancellationToken

/-- Per-turn handle. `token = none` is the null `shared_ptr` of a default context. -/
structure TurnContext where
  id : TurnId := kNoTurn
  token : Option CancellationToken := none
deriving DecidableEq, Repr

namespace TurnContext

def valid (ctx : TurnContext) : Bool := ctx.id ≠ kNoTurn && ctx.token.isSome

/-- `if (ctx.token) ctx.token->cancel()`. -/
def cancelToken (ctx : TurnContext) : TurnContext :=
  { ctx with token := ctx.token.map CancellationToken.cancel }

@[simp] theorem cancelToken_id (ctx : TurnContext) : ctx.cancelToken.id = ctx.id := rfl

@[simp] theorem cancelToken_valid (ctx : TurnContext) : ctx.cancelToken.valid = ctx.valid := by
  cases ctx with
  | mk id token => cases token <;> rfl

end TurnContext

/-- `next` is the id the next `mint` hands out. -/
structure TurnFactory where
  next : TurnId := 1
deriving DecidableEq, Repr

namespace TurnFactory

def mint (f : TurnFactory) : TurnContext × TurnFactory :=
  ({ id := f.next, token := some {} }, { f with next := f.next + 1 })

/-- Wrap an existing id in a context with its own token; the counter stays. -/
def adopt (_ : TurnFactory) (id : TurnId) : TurnContext := { id := id, token := some {} }

@[simp] theorem mint_id (f : TurnFactory) : f.mint.1.id = f.next := rfl

@[simp] theorem mint_next (f : TurnFactory) : f.mint.2.next = f.next + 1 := rfl

@[simp] theorem adopt_id (f : TurnFactory) (id : TurnId) : (f.adopt id).id = id := rfl

end TurnFactory

end Acva.Dialogue

import Mathlib.Data.List.Basic

/-! # Cancellation tokens

A token is shared by reference and stays cancelled once it is cancelled.
-/

namespace Acva.Dialogue

/-- A `shared_ptr` to a cancellation token. -/
abbrev TokenRef := Nat

/-- The tokens made so far, and those of them that are cancelled. -/
structure TokenPool where
  next : TokenRef := 0
  cancelled : List TokenRef := []
deriving DecidableEq, Repr

namespace TokenPool

/-- `make_shared<CancellationToken>()`. -/
def make (p : TokenPool) : TokenRef × TokenPool := (p.next, { p with next := p.next + 1 })

def cancel (tok : TokenRef) (p : TokenPool) : TokenPool :=
  { p with cancelled := tok :: p.cancelled }

def isCancelled (tok : TokenRef) (p : TokenPool) : Bool := tok ∈ p.cancelled

@[simp] theorem make_isCancelled (p : TokenPool) (tok : TokenRef) :
    p.make.2.isCancelled tok = p.isCancelled tok := rfl

@[simp] theorem isCancelled_cancel {p : TokenPool} {tok tok' : TokenRef} :
    (p.cancel tok').isCancelled tok = true ↔ tok = tok' ∨ p.isCancelled tok = true := by
  simp [isCancelled, cancel]

end TokenPool

end Acva.Dialogue

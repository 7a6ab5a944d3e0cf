import Acva.Event.Event

/-! # The SSE parser

Bytes come in any chunks; an event ends at an empty line. What the parser calls
back is returned as a list, in order: the callbacks do not reach back into it.
-/

namespace Acva.Llm

inductive SseCallback
  | data (payload : Bytes)
  | done
  | comment (line : Bytes)
deriving DecidableEq, Repr

structure SseParser where
  buffer : Bytes := []
  doneSeen : Bool := false
deriving DecidableEq, Repr

def kDataPrefix : Bytes := ascii "data:"

def kDoneSentinel : Bytes := ascii "[DONE]"

/-- Strip one optional space. -/
def trimLeadingSpace (s : Bytes) : Bytes := if s.head? = some (byte ' ') then s.tail else s

/-- Cut the buffer at the first event boundary, which is dropped. -/
def cutEvent : Bytes → Option (Bytes × Bytes)
  | [] => none
  | c :: rest =>
      if c = byte '\n' ∧ rest.head? = some (byte '\n') then some ([], rest.tail)
      else (cutEvent rest).map fun (event, rest) => (c :: event, rest)

/-- The lines of an event's text. -/
def lines (text : Bytes) : List Bytes := text.splitOn (byte '\n')

/-- The callbacks of one event, and whether the sentinel ended it. -/
def emitLines : List Bytes → List SseCallback × Bool
  | [] => ([], false)
  | line :: rest =>
      if line = [] then emitLines rest
      else if line.head? = some (byte ':') then
        let (out, done) := emitLines rest
        (.comment line.tail :: out, done)
      else if kDataPrefix.isPrefixOf line then
        let payload := trimLeadingSpace (line.drop kDataPrefix.length)
        if payload = kDoneSentinel then ([.done], true)
        else
          let (out, done) := emitLines rest
          (.data payload :: out, done)
      else emitLines rest

def emitEvent (text : Bytes) : List SseCallback × Bool := emitLines (lines text)

namespace SseParser

/-- The loop of `feed`; every round but the last takes an event off the buffer, so the
buffer's length is fuel enough. -/
def drain : Nat → Bytes → SseParser × List SseCallback
  | 0, buffer => ({ buffer := buffer }, [])
  | fuel + 1, buffer =>
      match cutEvent buffer with
      | none => ({ buffer := buffer }, [])
      | some (event, rest) =>
          let (out, done) := emitEvent event
          if done = true then ({ buffer := [], doneSeen := true }, out)
          else
            let (p, out') := drain fuel rest
            (p, out ++ out')

def feed (bytes : Bytes) (p : SseParser) : SseParser × List SseCallback :=
  if p.doneSeen = true then (p, [])
  else
    let buffer := p.buffer ++ bytes
    drain buffer.length buffer

/-- Flush a last event that no empty line ended. -/
def finish (p : SseParser) : SseParser × List SseCallback :=
  if p.doneSeen = true then (p, [])
  else if p.buffer = [] then (p, [])
  else
    let (out, done) := emitEvent p.buffer
    ({ buffer := [], doneSeen := done }, out)

/-- Feed chunk after chunk. -/
def feedAll : List Bytes → SseParser → SseParser × List SseCallback
  | [], p => (p, [])
  | c :: cs, p =>
      let (p, out) := p.feed c
      let (p, out') := p.feedAll cs
      (p, out ++ out')

/-! ## The loop ends by itself -/

theorem cutEvent_length {buffer event rest : Bytes} (h : cutEvent buffer = some (event, rest)) :
    rest.length < buffer.length := by
  induction buffer generalizing event rest with
  | nil => simp [cutEvent] at h
  | cons c cs ih =>
      simp only [cutEvent] at h
      split at h
      · simp only [Option.some.injEq, Prod.mk.injEq] at h
        rw [← h.2, List.length_tail, List.length_cons]
        omega
      · obtain ⟨⟨event', rest'⟩, hcut, heq⟩ := Option.map_eq_some_iff.mp h
        simp only [Prod.mk.injEq] at heq
        have hshort := ih hcut
        rw [← heq.2, List.length_cons]
        omega

/-- With the fuel that `feed` gives it, the loop runs until no boundary is left, or until
the sentinel. -/
theorem drain_finishes {fuel : Nat} {buffer : Bytes} (h : buffer.length ≤ fuel) :
    (drain fuel buffer).1.doneSeen = true ∨ cutEvent (drain fuel buffer).1.buffer = none := by
  induction fuel generalizing buffer with
  | zero =>
      have hnil : buffer = [] := List.length_eq_zero_iff.mp (Nat.le_zero.mp h)
      exact .inr (by simp [drain, hnil, cutEvent])
  | succ fuel ih =>
      cases hcut : cutEvent buffer with
      | none => exact .inr (by simp [drain, hcut])
      | some cut =>
          obtain ⟨event, rest⟩ := cut
          have hshort : rest.length ≤ fuel := by
            have hcutShort := cutEvent_length hcut
            omega
          have hrest := ih hshort
          simp only [drain, hcut]
          split
          · exact .inl rfl
          · exact hrest

/-- A data line is cut into chunks anywhere. -/
example : (feedAll [ascii "da", ascii "ta: hi\n\ndata: [DONE]", ascii "\n\ndata: x\n\n"] {}).2 =
    [.data (ascii "hi"), .done] := by decide

end SseParser

end Acva.Llm

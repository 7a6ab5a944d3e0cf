import Acva.Event.Event
import Mathlib.Algebra.GroupWithZero.Nat

/-! # The playback queue

Audio on its way from the synthesizer to the audio callback. Every operation
holds the mutex from its start to its end, so it is one step; a blocking enqueue
is a sequence of polls.
-/

namespace Acva.Playback

/-- Mono PCM at the device rate. -/
abbrev Sample := Int16

structure AudioChunk where
  turn : TurnId := kNoTurn
  seq : SequenceNo := 0
  samples : List Sample := []
  endOfSentence : Bool := false
deriving DecidableEq, Repr

/-- `cap = 0` is no limit. -/
structure PlaybackQueue where
  cap : Nat := 0
  chunks : List AudioChunk := []
  drops : Nat := 0
  enqueued : Nat := 0
  dequeued : Nat := 0
deriving DecidableEq, Repr

namespace PlaybackQueue

def full (q : PlaybackQueue) : Bool := q.cap ≠ 0 && q.cap ≤ q.chunks.length

def append (chunk : AudioChunk) (q : PlaybackQueue) : PlaybackQueue :=
  { q with chunks := q.chunks ++ [chunk], enqueued := q.enqueued + 1 }

def enqueue (chunk : AudioChunk) (q : PlaybackQueue) : Bool × PlaybackQueue :=
  if q.full = true then (false, { q with drops := q.drops + 1 }) else (true, q.append chunk)

/-- The locked section of one poll of `enqueue_blocking`. Where it fails the caller looks at
its token, sleeps and polls again. -/
def enqueuePoll (chunk : AudioChunk) (q : PlaybackQueue) : Bool × PlaybackQueue :=
  if q.full = true then (false, q) else (true, q.append chunk)

/-- The loop over the stale head: the first chunk of the turn, what follows it, and how many
chunks were dropped. -/
def skipStale (active : TurnId) : List AudioChunk → Option AudioChunk × List AudioChunk × Nat
  | [] => (none, [], 0)
  | c :: rest =>
      if c.turn ≠ active then
        let (found, rest, stale) := skipStale active rest
        (found, rest, stale + 1)
      else (some c, rest, 0)

def dequeueActive (active : TurnId) (q : PlaybackQueue) : Option AudioChunk × PlaybackQueue :=
  let (found, rest, stale) := skipStale active q.chunks
  let q := { q with chunks := rest, drops := q.drops + stale }
  match found with
  | none => (none, q)
  | some chunk => (some chunk, { q with dequeued := q.dequeued + 1 })

/-- The survivors, and how many were dropped. -/
def invalidateBefore (next : TurnId) (q : PlaybackQueue) : Nat × PlaybackQueue :=
  let kept := q.chunks.filter fun c => !decide (c.turn < next)
  let dropped := q.chunks.length - kept.length
  (dropped, { q with chunks := kept, drops := q.drops + dropped })

def clear (q : PlaybackQueue) : Nat × PlaybackQueue :=
  (q.chunks.length, { q with chunks := [], drops := q.drops + q.chunks.length })

/-- The chunks of one turn. -/
def ofTurn (t : TurnId) (q : PlaybackQueue) : List AudioChunk := q.chunks.filter fun c => c.turn = t

def pendingSamplesFor (t : TurnId) (q : PlaybackQueue) : Nat :=
  ((q.ofTurn t).map fun c => c.samples.length).sum

variable {q q' : PlaybackQueue} {t : TurnId}

theorem skipStale_eq_some {cs rest : List AudioChunk} {c : AudioChunk} {n : Nat}
    (h : skipStale t cs = (some c, rest, n)) :
    ∃ stale, cs = stale ++ c :: rest ∧ c.turn = t ∧ ∀ x ∈ stale, x.turn ≠ t := by
  induction cs generalizing n with
  | nil => cases h
  | cons x cs ih =>
      simp only [skipStale] at h
      split at h
      next hne =>
        cases hrec : skipStale t cs with
        | mk found tail =>
            rw [hrec] at h
            cases h
            obtain ⟨stale, rfl, hturn, hstale⟩ := ih hrec
            refine ⟨x :: stale, rfl, hturn, fun y hy => ?_⟩
            rcases List.mem_cons.mp hy with rfl | hy
            · exact hne
            · exact hstale y hy
      next heq =>
        cases h
        exact ⟨[], rfl, not_not.mp heq, by simp⟩

theorem skipStale_eq_none {cs rest : List AudioChunk} {n : Nat}
    (h : skipStale t cs = (none, rest, n)) : rest = [] ∧ ∀ x ∈ cs, x.turn ≠ t := by
  induction cs generalizing n with
  | nil =>
      cases h
      exact ⟨rfl, by simp⟩
  | cons x cs ih =>
      simp only [skipStale] at h
      split at h
      next hne =>
        cases hrec : skipStale t cs with
        | mk found tail =>
            rw [hrec] at h
            cases h
            obtain ⟨hrest, hall⟩ := ih hrec
            refine ⟨hrest, fun y hy => ?_⟩
            rcases List.mem_cons.mp hy with rfl | hy
            · exact hne
            · exact hall y hy
      next => cases h

/-- A dequeue returns the turn's first chunk, and everything before it is gone. -/
theorem dequeueActive_eq_some {c : AudioChunk} (h : q.dequeueActive t = (some c, q')) :
    c.turn = t ∧ q.ofTurn t = c :: q'.ofTurn t ∧
      ∃ stale, q.chunks = stale ++ c :: q'.chunks := by
  unfold dequeueActive at h
  cases hskip : skipStale t q.chunks with
  | mk found tail =>
      rw [hskip] at h
      cases found with
      | none => cases h
      | some x =>
          cases h
          obtain ⟨stale, hchunks, hturn, hstale⟩ := skipStale_eq_some hskip
          refine ⟨hturn, ?_, stale, hchunks⟩
          have hnone : stale.filter (fun c => c.turn = t) = [] :=
            List.filter_eq_nil_iff.mpr fun x hx => by simpa using hstale x hx
          rw [ofTurn, hchunks, List.filter_append, hnone, List.nil_append,
            List.filter_cons_of_pos (by simp [hturn])]
          rfl

/-- A dequeue that returns nothing finds no chunk of the turn, and leaves none at all. -/
theorem dequeueActive_eq_none (h : q.dequeueActive t = (none, q')) :
    q.ofTurn t = [] ∧ q'.chunks = [] := by
  unfold dequeueActive at h
  cases hskip : skipStale t q.chunks with
  | mk found tail =>
      rw [hskip] at h
      cases found with
      | some x => cases h
      | none =>
          cases h
          obtain ⟨hrest, hall⟩ := skipStale_eq_none hskip
          exact ⟨List.filter_eq_nil_iff.mpr fun x hx => by simpa using hall x hx, hrest⟩

end PlaybackQueue

end Acva.Playback

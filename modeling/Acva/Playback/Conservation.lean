import Acva.Core.Ledger
import Acva.Core.Runs
import Acva.Playback.Queue

/-! # Where chunks go

A chunk leaves the queue by being dequeued, as stale at the head of the queue, by an
invalidation or by a clear; a full queue does not even let it in. Beside the queue
stands what its callers have seen.
-/

namespace Acva.Playback

open Acva.Ledger Acva.Runs

/-- One locked section of the queue; `poll` is one round of `enqueue_blocking`. -/
inductive QueueCall
  | enqueue (chunk : AudioChunk)
  | poll (chunk : AudioChunk)
  | dequeueActive (active : TurnId)
  | invalidateBefore (next : TurnId)
  | clear
deriving DecidableEq, Repr

/-- The chunks taken in and given out, and the calls of `enqueue` that were rejected. -/
structure ChunkTrace where
  accepted : List AudioChunk := []
  rejected : Nat := 0
  delivered : List AudioChunk := []
deriving DecidableEq, Repr

namespace PlaybackQueue

def step (q : PlaybackQueue) : QueueCall → Option PlaybackQueue
  | .enqueue chunk => some (q.enqueue chunk).2
  | .poll chunk => some (q.enqueuePoll chunk).2
  | .dequeueActive active => some (q.dequeueActive active).2
  | .invalidateBefore next => some (q.invalidateBefore next).2
  | .clear => some q.clear.2

def note (t : ChunkTrace) (q : PlaybackQueue) : QueueCall → ChunkTrace
  | .enqueue chunk =>
      if (q.enqueue chunk).1 = true then { t with accepted := t.accepted ++ [chunk] }
      else { t with rejected := t.rejected + 1 }
  | .poll chunk =>
      if (q.enqueuePoll chunk).1 = true then { t with accepted := t.accepted ++ [chunk] } else t
  | .dequeueActive active =>
      { t with delivered := t.delivered ++ (q.dequeueActive active).1.toList }
  | _ => t

/-- The chunks that came in, each with its fate so far; those that were delivered came in
before those that wait. -/
structure Ledgered (q : PlaybackQueue) (t : ChunkTrace) (l : List (Entry AudioChunk)) : Prop where
  accepted : arrivals l = t.accepted
  delivered : withFate .served l = t.delivered
  queued : withFate .waiting l = q.chunks
  fifo : InOrder .served l

/-- The counters balance, and the queue keeps to its capacity. -/
structure Counted (q : PlaybackQueue) (t : ChunkTrace) : Prop where
  enqueued : q.enqueued = t.accepted.length
  dequeued : q.dequeued = t.delivered.length
  balance : t.accepted.length + t.rejected = q.dequeued + q.drops + q.chunks.length
  bounded : q.cap ≠ 0 → q.chunks.length ≤ q.cap

/-! ## One step -/

theorem skipStale_spec (active : TurnId) (cs : List AudioChunk) :
    ∃ stale, cs = stale ++ (skipStale active cs).1.toList ++ (skipStale active cs).2.1 ∧
      stale.length = (skipStale active cs).2.2 := by
  induction cs with
  | nil => exact ⟨[], rfl, rfl⟩
  | cons c cs ih =>
      obtain ⟨stale, hcs, hlength⟩ := ih
      simp only [skipStale]
      split
      · refine ⟨c :: stale, ?_, congrArg (· + 1) hlength⟩
        exact congrArg (c :: ·) hcs
      · exact ⟨[], rfl, rfl⟩

/-- What a call does to the queue and to what the callers have seen. -/
inductive CallStep (q : PlaybackQueue) (t : ChunkTrace) :
    QueueCall → PlaybackQueue → ChunkTrace → Prop
  | accept (call : QueueCall) (chunk : AudioChunk) (hroom : q.cap ≠ 0 → q.chunks.length < q.cap) :
      CallStep q t call (q.append chunk) { t with accepted := t.accepted ++ [chunk] }
  | reject (chunk : AudioChunk) (hfull : q.full = true) :
      CallStep q t (.enqueue chunk) { q with drops := q.drops + 1 }
        { t with rejected := t.rejected + 1 }
  | wait (chunk : AudioChunk) (hfull : q.full = true) : CallStep q t (.poll chunk) q t
  | deliver (active : TurnId) (stale rest : List AudioChunk) (chunk : AudioChunk)
      (hchunks : q.chunks = stale ++ chunk :: rest) :
      CallStep q t (.dequeueActive active)
        { q with chunks := rest, drops := q.drops + stale.length, dequeued := q.dequeued + 1 }
        { t with delivered := t.delivered ++ [chunk] }
  | drain (active : TurnId) :
      CallStep q t (.dequeueActive active)
        { q with chunks := [], drops := q.drops + q.chunks.length } t
  | discard (call : QueueCall) (p : AudioChunk → Bool) :
      CallStep q t call
        { q with
          chunks := q.chunks.filter fun c => !p c
          drops := q.drops + (q.chunks.length - (q.chunks.filter fun c => !p c).length) } t

variable {q q' : PlaybackQueue} {t t' : ChunkTrace} {call : QueueCall}

theorem room_of_not_full (h : ¬ q.full = true) : q.cap ≠ 0 → q.chunks.length < q.cap := by
  intro hcap
  simpa [full, hcap] using h

theorem dequeueActive_callStep (active : TurnId) : CallStep q t (.dequeueActive active)
    (q.dequeueActive active).2 (note t q (.dequeueActive active)) := by
  obtain ⟨stale, hchunks, hlength⟩ := skipStale_spec active q.chunks
  simp only [note, dequeueActive]
  cases hskip : skipStale active q.chunks with
  | mk found tail =>
      obtain ⟨rest, n⟩ := tail
      rw [hskip] at hchunks hlength
      cases found with
      | some chunk =>
          have hfront : q.chunks = stale ++ chunk :: rest := by
            rw [hchunks, List.append_assoc]
            rfl
          subst hlength
          exact .deliver active stale rest chunk hfront
      | none =>
          obtain ⟨rfl, -⟩ := skipStale_eq_none hskip
          have hall : q.chunks.length = n := by
            rw [hchunks]
            simpa using hlength
          have hsame : { t with delivered := t.delivered ++ (none : Option AudioChunk).toList } = t := by
            simp
          subst hall
          rw [hsame]
          exact .drain active

theorem step_callStep (h : q.step call = some q') : CallStep q t call q' (note t q call) := by
  cases call with
  | enqueue chunk =>
      cases h
      simp only [note, enqueue]
      by_cases hfull : q.full = true
      · simp only [if_pos hfull]
        exact .reject chunk hfull
      · simp only [if_neg hfull]
        exact .accept _ chunk (room_of_not_full hfull)
  | poll chunk =>
      cases h
      simp only [note, enqueuePoll]
      by_cases hfull : q.full = true
      · simp only [if_pos hfull]
        exact .wait chunk hfull
      · simp only [if_neg hfull]
        exact .accept _ chunk (room_of_not_full hfull)
  | dequeueActive active =>
      cases h
      exact dequeueActive_callStep active
  | invalidateBefore next =>
      cases h
      exact .discard _ fun c => decide (c.turn < next)
  | clear =>
      cases h
      have hall : q.clear.2 = { q with
          chunks := q.chunks.filter fun c => !(fun _ => true) c
          drops := q.drops +
            (q.chunks.length - (q.chunks.filter fun c => !(fun _ => true) c).length) } := by
        simp [clear]
      rw [hall]
      exact .discard _ fun _ => true

theorem Ledgered.step {l : List (Entry AudioChunk)} (hl : Ledgered q t l)
    (h : CallStep q t call q' t') : ∃ l', Ledgered q' t' l' := by
  obtain ⟨haccepted, hdelivered, hqueued, hfifo⟩ := hl
  cases h with
  | accept call chunk _ =>
      refine ⟨arrive chunk l, ?_, ?_, ?_, hfifo.arrive (by decide) chunk⟩
      · rw [arrivals_arrive, haccepted]
      · rw [withFate_arrive (by decide), hdelivered]
      · rw [waiting_arrive, hqueued]
        rfl
  | reject chunk _ => exact ⟨l, haccepted, hdelivered, hqueued, hfifo⟩
  | wait chunk _ => exact ⟨l, haccepted, hdelivered, hqueued, hfifo⟩
  | deliver active stale rest chunk hchunks =>
      have hwaiting : withFate .waiting (discardFirst stale.length l) = chunk :: rest := by
        rw [waiting_discardFirst, hqueued, hchunks, List.drop_left]
      have horder : InOrder .served (discardFirst stale.length l) := hfifo.discardFirst _
      refine ⟨settleFirst .served (discardFirst stale.length l), ?_, ?_, ?_,
        horder.settleFirst (by decide)⟩
      · rw [arrivals_settleFirst, arrivals_discardFirst, haccepted]
      · rw [withFate_settleFirst_self horder (by decide), hwaiting, served_discardFirst, hdelivered]
        rfl
      · rw [waiting_settleFirst (by decide), hwaiting]
        rfl
  | drain active =>
      refine ⟨discardFirst q.chunks.length l, ?_, ?_, ?_, hfifo.discardFirst _⟩
      · rw [arrivals_discardFirst, haccepted]
      · rw [served_discardFirst, hdelivered]
      · rw [waiting_discardFirst, hqueued, List.drop_length]
  | discard call p =>
      refine ⟨Ledger.discard p l, ?_, ?_, ?_, hfifo.discard p⟩
      · rw [arrivals_discard, haccepted]
      · rw [served_discard, hdelivered]
      · rw [waiting_discard, hqueued]

theorem Counted.step (hc : Counted q t) (h : CallStep q t call q' t') : Counted q' t' := by
  obtain ⟨henqueued, hdequeued, hbalance, hbounded⟩ := hc
  cases h with
  | accept call chunk hroom =>
      refine ⟨?_, hdequeued, ?_, fun hcap => ?_⟩
      · simp [append, henqueued]
      · simp only [append, List.length_append, List.length_singleton]
        omega
      · have hlt := hroom hcap
        simp only [append, List.length_append, List.length_singleton]
        exact hlt
  | reject chunk _ =>
      refine ⟨henqueued, hdequeued, ?_, hbounded⟩
      show t.accepted.length + (t.rejected + 1) = q.dequeued + (q.drops + 1) + q.chunks.length
      omega
  | wait chunk _ => exact ⟨henqueued, hdequeued, hbalance, hbounded⟩
  | deliver active stale rest chunk hchunks =>
      have hlength : q.chunks.length = stale.length + (rest.length + 1) := by
        rw [hchunks, List.length_append, List.length_cons]
      refine ⟨henqueued, ?_, ?_, fun hcap => ?_⟩
      · simp [hdequeued]
      · show t.accepted.length + t.rejected =
          q.dequeued + 1 + (q.drops + stale.length) + rest.length
        omega
      · have hle := hbounded hcap
        show rest.length ≤ q.cap
        omega
  | drain active =>
      refine ⟨henqueued, hdequeued, ?_, fun _ => Nat.zero_le _⟩
      show t.accepted.length + t.rejected = q.dequeued + (q.drops + q.chunks.length) + 0
      omega
  | discard call p =>
      have hle : (q.chunks.filter fun c => !p c).length ≤ q.chunks.length :=
        List.length_filter_le _ _
      refine ⟨henqueued, hdequeued, ?_, fun hcap => Nat.le_trans hle (hbounded hcap)⟩
      show t.accepted.length + t.rejected = q.dequeued +
        (q.drops + (q.chunks.length - (q.chunks.filter fun c => !p c).length)) +
          (q.chunks.filter fun c => !p c).length
      omega

/-! ## Runs -/

/-- An invalidation removes the chunks of the turns before, and only those, in place. -/
structure InvalidatesBefore (next : TurnId) (q q' : PlaybackQueue) (n : Nat) : Prop where
  survivors : q'.chunks = q.chunks.filter fun c => next ≤ c.turn
  removed : n = (q.chunks.filter fun c => c.turn < next).length
  counted : q'.drops = q.drops + n

theorem invalidateBefore_invalidates (next : TurnId) (q : PlaybackQueue) :
    InvalidatesBefore next q (q.invalidateBefore next).2 (q.invalidateBefore next).1 := by
  have hsurvivors : (q.chunks.filter fun c => !decide (c.turn < next)) =
      q.chunks.filter fun c => next ≤ c.turn := by
    refine List.filter_congr fun c _ => ?_
    by_cases hlt : c.turn < next
    · simp [hlt, Nat.not_le.mpr hlt]
    · simp [hlt, Nat.not_lt.mp hlt]
  refine ⟨hsurvivors, ?_, rfl⟩
  have hlength := List.length_eq_length_filter_add (l := q.chunks) fun c => decide (c.turn < next)
  show q.chunks.length - (q.chunks.filter fun c => !decide (c.turn < next)).length = _
  omega

theorem CallStep.cap (h : CallStep q t call q' t') : q'.cap = q.cap := by
  cases h <;> rfl

/-- Nothing is lost or given out twice, and the order is kept. -/
structure Conserves (q : PlaybackQueue) (t : ChunkTrace) : Prop where
  counted : Counted q t
  ledger : ∃ l, Ledgered q t l
  inOrder : List.Sublist (t.delivered ++ q.chunks) t.accepted

/-- Whatever the threads do to a queue, it conserves its chunks; a dequeue returns a chunk of
the turn it asks for, and an invalidation removes just the turns before. -/
theorem run_conserves {cap : Nat} {calls : List QueueCall}
    (hrun : run (watch step note) ({ cap := cap }, {}) calls = some (q, t)) :
    q.cap = cap ∧ Conserves q t ∧
      (∀ active chunk q', q.dequeueActive active = (some chunk, q') → chunk.turn = active) ∧
      ∀ next, InvalidatesBefore next q (q.invalidateBefore next).2 (q.invalidateBefore next).1 := by
  have hi : q.cap = cap ∧ Counted q t ∧ ∃ l, Ledgered q t l := by
    refine run_preserves (fun w => w.1.cap = cap ∧ Counted w.1 w.2 ∧ ∃ l, Ledgered w.1 w.2 l)
      (fun w call w' hw hs => ?_) hrun
      ⟨rfl, ⟨rfl, rfl, rfl, fun _ => Nat.zero_le _⟩, [], rfl, rfl, rfl, List.Pairwise.nil⟩
    obtain ⟨hcap, hcounted, l, hl⟩ := hw
    obtain ⟨hstep, hnote⟩ := watch_eq_some.mp hs
    have hcall : CallStep w.1 w.2 call w'.1 w'.2 := hnote ▸ step_callStep hstep
    exact ⟨hcall.cap.trans hcap, hcounted.step hcall, hl.step hcall⟩
  obtain ⟨hcap, hcounted, l, hl⟩ := hi
  refine ⟨hcap, ⟨hcounted, ⟨l, hl⟩, ?_⟩, ?_, fun next => invalidateBefore_invalidates next q⟩
  · rw [← hl.delivered, ← hl.queued, ← kept_eq hl.fifo, ← hl.accepted]
    exact kept_sublist l
  · intro active chunk q' hdequeue
    exact (dequeueActive_eq_some hdequeue).1

/-- Two turns in a queue of three: one call is rejected, a stale chunk goes, one is played. -/
def twoTurns : List QueueCall :=
  [.enqueue { turn := 1 }, .poll { turn := 2 }, .enqueue { turn := 2, seq := 1 },
    .enqueue { turn := 2, seq := 2 }, .dequeueActive 2, .invalidateBefore 3]

theorem run_conserves_twoTurns :
    ∃ q t, run (watch step note) ({ cap := 3 }, {}) twoTurns = some (q, t) ∧
      t.delivered = [{ turn := 2 }] ∧ t.rejected = 1 ∧ q.drops = 3 ∧ Conserves q t := by
  obtain ⟨w, hw⟩ : ∃ w, run (watch step note) (({ cap := 3 } : PlaybackQueue), {}) twoTurns =
      some w := ⟨_, rfl⟩
  have hconserves := (run_conserves hw).2.1
  cases hw
  exact ⟨_, _, rfl, rfl, rfl, rfl, hconserves⟩

end PlaybackQueue

end Acva.Playback

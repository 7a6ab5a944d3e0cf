import Acva.Playback.Engine

/-! # Draining a reply

Nothing more is enqueued, the active turn stays, and the device goes on asking
for buffers. What is queued for the turn comes out if and only if the prefill
gate lets it: the gate counts what is still queued, and never opens for a reply
shorter than its target.
-/

namespace Acva.Playback

open Acva.Runs

namespace PlaybackQueue

/-- The samples queued for a turn. -/
def samplesOf (t : TurnId) (q : PlaybackQueue) : List Sample :=
  (q.ofTurn t).flatMap fun c => c.samples

/-- The sentence ends queued for a turn. -/
def marksOf (t : TurnId) (q : PlaybackQueue) : List PlaybackFinished :=
  ((q.ofTurn t).filter fun c => c.endOfSentence).map fun c => { turn := c.turn, seq := c.seq }

end PlaybackQueue

namespace AudioOutput

/-- How many steps the callback can still make. -/
def stepsLeft (p : AudioOutput) : Nat :=
  match p.engine.pc with
  | .idle => 0
  | .loop frames out => 3 * p.queue.chunks.length + (frames - out.length) + 3
  | .gate frames out _ => 3 * p.queue.chunks.length + (frames - out.length) + 2
  | .pop frames out _ => 3 * p.queue.chunks.length + (frames - out.length) + 1

/-- The device asks for a buffer. -/
def beginCall (frames : Nat) (p : AudioOutput) : AudioOutput :=
  { p with engine := p.engine.begin frames }

/-- `render_into` with nobody in between. -/
def renderInto (frames : Nat) (p : AudioOutput) : AudioOutput :=
  exhaust audio (p.beginCall frames).stepsLeft (p.beginCall frames)

/-- Callbacks one after the other, the `i`th for `frames i`. -/
def renderAll (frames : Nat → Nat) (p : AudioOutput) : Nat → AudioOutput :=
  iterate (fun i => renderInto (frames i)) p

theorem copy_length {e : PlaybackEngine} {frames : Nat} {out : List Sample}
    (hroom : out.length < frames) (hmore : e.leftover ≠ []) :
    0 < (e.leftover.take (frames - out.length)).length := by
  have hpos := List.length_pos_iff.mpr hmore
  rw [List.length_take]
  omega

theorem audio_stepsLeft {p p' : AudioOutput} (h : p.audio = some p') :
    p'.stepsLeft < p.stepsLeft := by
  obtain ⟨engine, queue, hstep, rfl⟩ := audio_eq_some h
  cases hstep with
  | finish frames out hpc _ => simp [stepsLeft, hpc, PlaybackEngine.finish]
  | retire frames out hpc _ _ => simp [stepsLeft, hpc]
  | copy frames out hpc hroom hmore =>
      have hpos := copy_length hroom hmore
      simp only [stepsLeft, hpc, PlaybackEngine.copy, List.length_append]
      omega
  | pass frames out turn hpc _ => simp [stepsLeft, hpc]
  | hold frames out turn hpc _ => simp [stepsLeft, hpc, PlaybackEngine.fallSilent]
  | underrun frames out turn q' hpc _ => simp [stepsLeft, hpc, PlaybackEngine.fallSilent]
  | take frames out turn chunk q' hpc hpop =>
      obtain ⟨-, -, stale, hchunks⟩ := PlaybackQueue.dequeueActive_eq_some hpop
      simp only [stepsLeft, hpc, hchunks, List.length_append, List.length_cons]
      omega

/-- A callback returns. -/
theorem renderInto_idle (frames : Nat) (p : AudioOutput) :
    (p.renderInto frames).engine.pc = .idle :=
  audio_eq_none (exhaust_stuck stepsLeft (fun _ _ => audio_stepsLeft) (Nat.le_refl _))

/-- What every step of a callback keeps, the whole callback keeps. -/
theorem renderInto_invariant {Inv : AudioOutput → Prop} {frames : Nat} {p : AudioOutput}
    (hstep : ∀ p p', Inv p → p.audio = some p' → Inv p') (h : Inv (p.beginCall frames)) :
    Inv (p.renderInto frames) :=
  exhaust_invariant hstep h _

/-! ## Through an open gate -/

/-- The samples of the turn that are still to come. -/
def rest (t : TurnId) (p : AudioOutput) : List Sample := p.engine.leftover ++ p.queue.samplesOf t

/-- The sentence ends that are still to be posted. -/
def marks (t : TurnId) (p : AudioOutput) : List PlaybackFinished :=
  p.engine.currentMark ++ p.queue.marksOf t

/-- The prefill gate is open for the turn, or will be at the next look at the queue. -/
def GateOpens (t : TurnId) (p : AudioOutput) : Prop :=
  p.engine.prefillTargetSamples = 0 ∨ p.engine.primedTurn = t ∨
    p.engine.prefillTargetSamples ≤ p.queue.pendingSamplesFor t

/-- Nothing of the turn waits behind the gate. -/
def NothingQueued (t : TurnId) (p : AudioOutput) : Prop :=
  p.queue.samplesOf t = [] ∧ p.queue.marksOf t = []

/-- Everything of the turn is out. -/
def Empty (t : TurnId) (p : AudioOutput) : Prop := p.rest t = [] ∧ p.marks t = []

/-- Nothing gets lost: what is out and what is to come is `samples` and `ends`. -/
structure Flowing (t : TurnId) (samples : List Sample) (ends : List PlaybackFinished)
    (p : AudioOutput) : Prop where
  active : p.activeTurn = t
  samples : p.engine.written.map (·.sample) ++ p.rest t = samples
  ends : p.engine.posted ++ p.marks t = ends
  ready : p.GateOpens t ∨ p.NothingQueued t

/-- Where the callback stands: `size` is how much was to come when it began. -/
def Progress (t : TurnId) (size : Nat) (p : AudioOutput) : Prop :=
  match p.engine.pc with
  | .idle => p.Empty t ∨ (p.rest t).length < size
  | .loop frames out =>
      0 < frames ∧ out.length ≤ frames ∧ out.length + (p.rest t).length = size
  | .gate frames out turn =>
      turn = t ∧ p.engine.leftover = [] ∧ p.engine.currentMark = [] ∧
        0 < frames ∧ out.length ≤ frames ∧ out.length + (p.rest t).length = size
  | .pop frames out turn =>
      turn = t ∧ p.engine.leftover = [] ∧ p.engine.currentMark = [] ∧
        (p.engine.prefillTargetSamples = 0 ∨ p.engine.primedTurn = t) ∧
        0 < frames ∧ out.length ≤ frames ∧ out.length + (p.rest t).length = size

theorem nothingQueued_iff {t : TurnId} {p : AudioOutput} (hleft : p.engine.leftover = [])
    (hmark : p.engine.currentMark = []) : p.NothingQueued t ↔ p.Empty t := by
  simp [NothingQueued, Empty, rest, marks, hleft, hmark]

theorem gateOpen_iff {t : TurnId} (ht : t ≠ kNoTurn) {p : AudioOutput} :
    p.engine.gateOpen t (p.queue.pendingSamplesFor t) = true ↔ p.GateOpens t := by
  simp only [PlaybackEngine.gateOpen, GateOpens, Bool.or_eq_true, Bool.not_eq_true',
    Bool.and_eq_false_iff, decide_eq_false_iff_not, decide_eq_true_eq, not_not, or_assoc]
  constructor
  · rintro (h | h | h | h)
    · exact .inl (Nat.eq_zero_of_not_pos h)
    · exact absurd h ht
    · exact .inr (.inl h)
    · exact .inr (.inr h)
  · rintro (h | h | h)
    · exact .inl (by omega)
    · exact .inr (.inr (.inl h))
    · exact .inr (.inr (.inr h))

/-- A chunk that is taken leaves the queue for the engine. -/
theorem rest_of_taken {t : TurnId} {p : AudioOutput} {queue : PlaybackQueue} {chunk : AudioChunk}
    (hleft : p.engine.leftover = []) (hfirst : p.queue.ofTurn t = chunk :: queue.ofTurn t) :
    chunk.samples ++ queue.samplesOf t = p.rest t := by
  rw [rest, hleft, PlaybackQueue.samplesOf, PlaybackQueue.samplesOf, hfirst]
  rfl

theorem marks_of_taken {t : TurnId} (ht : t ≠ kNoTurn) {p : AudioOutput} {queue : PlaybackQueue}
    {chunk : AudioChunk} (hmark : p.engine.currentMark = []) (hturn : chunk.turn = t)
    (hfirst : p.queue.ofTurn t = chunk :: queue.ofTurn t) :
    ({ p.engine with current := chunk } : PlaybackEngine).currentMark ++ queue.marksOf t =
      p.marks t := by
  rw [marks, hmark, PlaybackQueue.marksOf, PlaybackQueue.marksOf, hfirst]
  by_cases hend : chunk.endOfSentence = true
  · simp [PlaybackEngine.currentMark, hturn, ht, hend]
  · simp [PlaybackEngine.currentMark, hend]

/-- A queue without a chunk of the turn has nothing of it. -/
theorem nothing_of_gone {t : TurnId} {queue : PlaybackQueue} (h : queue.ofTurn t = []) :
    queue.samplesOf t = [] ∧ queue.marksOf t = [] := by
  simp [PlaybackQueue.samplesOf, PlaybackQueue.marksOf, h]

theorem Flowing.audio {t : TurnId} (ht : t ≠ kNoTurn) {samples : List Sample}
    {ends : List PlaybackFinished} {size : Nat} {p p' : AudioOutput}
    (h : Flowing t samples ends p ∧ p.Progress t size) (hstep : p.audio = some p') :
    Flowing t samples ends p' ∧ p'.Progress t size := by
  obtain ⟨⟨hactive, hsamples, hends, hready⟩, hprogress⟩ := h
  obtain ⟨engine, queue, hcase, rfl⟩ := audio_eq_some hstep
  cases hcase with
  | finish frames out hpc hfull =>
      simp only [Progress, hpc] at hprogress
      refine ⟨⟨hactive, hsamples, hends, hready⟩, .inr ?_⟩
      show (p.rest t).length < size
      omega
  | retire frames out hpc hroom hend =>
      simp only [Progress, hpc] at hprogress
      have hretired := p.engine.retire_retired
      have hleft := hretired.leftover hend
      have hrest : p.engine.retire.leftover ++ p.queue.samplesOf t = p.rest t := by
        rw [hleft, rest, hend]
      refine ⟨⟨hactive, ?_, ?_, ?_⟩, hactive, hleft, hretired.currentMark, hprogress.1,
        hprogress.2.1, ?_⟩
      · show p.engine.retire.written.map (·.sample) ++
          (p.engine.retire.leftover ++ p.queue.samplesOf t) = samples
        rw [hretired.written, hrest]
        exact hsamples
      · show p.engine.retire.posted ++ (p.engine.retire.currentMark ++ p.queue.marksOf t) = ends
        rw [hretired.posted, hretired.currentMark, List.nil_append, List.append_assoc]
        exact hends
      · show (p.engine.retire.prefillTargetSamples = 0 ∨ p.engine.retire.primedTurn = t ∨
          p.engine.retire.prefillTargetSamples ≤ p.queue.pendingSamplesFor t) ∨ p.NothingQueued t
        rw [hretired.prefillTargetSamples, hretired.primedTurn]
        exact hready
      · show out.length + (p.engine.retire.leftover ++ p.queue.samplesOf t).length = size
        rw [hrest]
        exact hprogress.2.2
  | copy frames out hpc hroom hmore =>
      simp only [Progress, hpc] at hprogress
      have hrest : (p.engine.copy frames out).leftover ++ p.queue.samplesOf t =
          p.engine.leftover.drop (frames - out.length) ++ p.queue.samplesOf t := by
        rw [PlaybackEngine.copy_leftover]
      have hsplit : p.engine.leftover.take (frames - out.length) ++
          (p.engine.leftover.drop (frames - out.length) ++ p.queue.samplesOf t) = p.rest t := by
        rw [← List.append_assoc, List.take_append_drop]
        rfl
      refine ⟨⟨hactive, ?_, hends, hready⟩, hprogress.1, ?_, ?_⟩
      · show (p.engine.copy frames out).written.map (·.sample) ++
          ((p.engine.copy frames out).leftover ++ p.queue.samplesOf t) = samples
        rw [hrest, PlaybackEngine.copy_written, List.append_assoc, hsplit]
        exact hsamples
      · rw [List.length_append, List.length_take]
        omega
      · show (out ++ p.engine.leftover.take (frames - out.length)).length +
          ((p.engine.copy frames out).leftover ++ p.queue.samplesOf t).length = size
        rw [hrest, ← hprogress.2.2, ← hsplit]
        simp only [List.length_append]
        omega
  | pass frames out turn hpc hgate =>
      simp only [Progress, hpc] at hprogress
      obtain ⟨rfl, hleft, hmark, hpos, hroom, hsize⟩ := hprogress
      have hprimed : p.engine.prefillTargetSamples = 0 ∨ (p.engine.prime turn).primedTurn = turn := by
        unfold PlaybackEngine.prime
        split
        · exact .inr rfl
        next hnone => exact .inl (Nat.eq_zero_of_not_pos fun hlt => hnone ⟨hlt, ht⟩)
      rw [PlaybackEngine.prime_eq]
      refine ⟨⟨hactive, hsamples, hends, .inl ?_⟩, rfl, hleft, hmark, hprimed, hpos, hroom, hsize⟩
      exact hprimed.imp_right .inl
  | hold frames out turn hpc hgate =>
      simp only [Progress, hpc] at hprogress
      obtain ⟨rfl, hleft, hmark, -⟩ := hprogress
      have hshut : ¬ p.GateOpens turn := by
        rw [← gateOpen_iff ht, hgate]
        decide
      have hnone := hready.resolve_left hshut
      exact ⟨⟨hactive, hsamples, hends, hready⟩, .inl ((nothingQueued_iff hleft hmark).mp hnone)⟩
  | underrun frames out turn _ hpc hpop =>
      simp only [Progress, hpc] at hprogress
      obtain ⟨rfl, hleft, hmark, -⟩ := hprogress
      obtain ⟨hnone, hgone⟩ := PlaybackQueue.dequeueActive_eq_none hpop
      have hbefore := nothing_of_gone hnone
      have hnothing : queue.samplesOf turn = [] ∧ queue.marksOf turn = [] :=
        nothing_of_gone (by simp [PlaybackQueue.ofTurn, hgone])
      have hempty : ({ p with queue := queue } : AudioOutput).Empty turn :=
        (nothingQueued_iff (t := turn) (p := { p with queue := queue }) hleft hmark).mp hnothing
      refine ⟨⟨hactive, ?_, ?_, .inr hnothing⟩, .inl hempty⟩
      · show p.engine.written.map (·.sample) ++ (p.engine.leftover ++ queue.samplesOf turn) = samples
        rw [hnothing.1, ← hbefore.1]
        exact hsamples
      · show p.engine.posted ++ (p.engine.currentMark ++ queue.marksOf turn) = ends
        rw [hnothing.2, ← hbefore.2]
        exact hends
  | take frames out turn chunk _ hpc hpop =>
      simp only [Progress, hpc] at hprogress
      obtain ⟨rfl, hleft, hmark, hprimed, hpos, hroom, hsize⟩ := hprogress
      obtain ⟨hturn, hfirst, -⟩ := PlaybackQueue.dequeueActive_eq_some hpop
      have hrest := rest_of_taken hleft hfirst
      have hmarks := marks_of_taken ht hmark hturn hfirst
      refine ⟨⟨hactive, ?_, ?_, .inl (hprimed.imp_right .inl)⟩, hpos, hroom, ?_⟩
      · show p.engine.written.map (·.sample) ++ (chunk.samples ++ queue.samplesOf turn) = samples
        rw [hrest]
        exact hsamples
      · show p.engine.posted ++ (({ p.engine with current := chunk } : PlaybackEngine).currentMark ++
          queue.marksOf turn) = ends
        rw [hmarks]
        exact hends
      · show out.length + (chunk.samples ++ queue.samplesOf turn).length = size
        rw [hrest]
        exact hsize

/-- One callback gets everything out, or some of it. -/
theorem Flowing.renderInto {t : TurnId} (ht : t ≠ kNoTurn) {samples : List Sample}
    {ends : List PlaybackFinished} {p : AudioOutput} (h : Flowing t samples ends p) {frames : Nat}
    (hpos : 0 < frames) :
    Flowing t samples ends (p.renderInto frames) ∧
      ((p.renderInto frames).Empty t ∨
        ((p.renderInto frames).rest t).length < (p.rest t).length) := by
  have hbegin : Flowing t samples ends (p.beginCall frames) ∧
      (p.beginCall frames).Progress t (p.rest t).length :=
    ⟨⟨h.active, h.samples, h.ends, h.ready⟩, hpos, Nat.zero_le _, Nat.zero_add _⟩
  have hend := renderInto_invariant (fun _ _ => Flowing.audio ht) hbegin
  refine ⟨hend.1, ?_⟩
  have hprogress := hend.2
  simpa only [Progress, renderInto_idle] using hprogress

/-! ## Behind a shut gate -/

/-- Nothing of the turn leaves the queue. -/
structure Shut (t : TurnId) (q : PlaybackQueue) (samples : List Sample)
    (ends : List PlaybackFinished) (p : AudioOutput) : Prop where
  active : p.activeTurn = t
  queue : p.queue = q
  shut : ¬ p.GateOpens t
  samples : p.engine.written.map (·.sample) ++ p.engine.leftover = samples
  ends : p.engine.posted ++ p.engine.currentMark = ends
  pc : match p.engine.pc with
    | .gate _ _ turn => turn = t
    | .pop _ _ _ => False
    | _ => True

theorem Shut.audio {t : TurnId} (ht : t ≠ kNoTurn) {q : PlaybackQueue} {samples : List Sample}
    {ends : List PlaybackFinished} {p p' : AudioOutput} (h : Shut t q samples ends p)
    (hstep : p.audio = some p') : Shut t q samples ends p' := by
  obtain ⟨hactive, hqueue, hshut, hsamples, hends, hpc'⟩ := h
  obtain ⟨engine, queue, hcase, rfl⟩ := audio_eq_some hstep
  cases hcase with
  | finish frames out hpc hfull => exact ⟨hactive, hqueue, hshut, hsamples, hends, trivial⟩
  | retire frames out hpc hroom hend =>
      have hretired := p.engine.retire_retired
      refine ⟨hactive, hqueue, ?_, ?_, ?_, hactive⟩
      · show ¬ (p.engine.retire.prefillTargetSamples = 0 ∨ p.engine.retire.primedTurn = t ∨
          p.engine.retire.prefillTargetSamples ≤ p.queue.pendingSamplesFor t)
        rw [hretired.prefillTargetSamples, hretired.primedTurn]
        exact hshut
      · show p.engine.retire.written.map (·.sample) ++ p.engine.retire.leftover = samples
        rw [hretired.written, hretired.leftover hend, ← hend]
        exact hsamples
      · show p.engine.retire.posted ++ p.engine.retire.currentMark = ends
        rw [hretired.posted, hretired.currentMark, List.append_nil]
        exact hends
  | copy frames out hpc hroom hmore =>
      refine ⟨hactive, hqueue, hshut, ?_, hends, trivial⟩
      show (p.engine.copy frames out).written.map (·.sample) ++
        (p.engine.copy frames out).leftover = samples
      rw [PlaybackEngine.copy_written, PlaybackEngine.copy_leftover, List.append_assoc,
        List.take_append_drop]
      exact hsamples
  | pass frames out turn hpc hgate =>
      simp only [hpc] at hpc'
      subst hpc'
      exact absurd ((gateOpen_iff ht).mp hgate) hshut
  | hold frames out turn hpc hgate => exact ⟨hactive, hqueue, hshut, hsamples, hends, trivial⟩
  | underrun frames out turn _ hpc hpop => simp [hpc] at hpc'
  | take frames out turn chunk _ hpc hpop => simp [hpc] at hpc'

theorem Shut.renderAll {t : TurnId} (ht : t ≠ kNoTurn) {q : PlaybackQueue} {samples : List Sample}
    {ends : List PlaybackFinished} {p : AudioOutput} (h : Shut t q samples ends p)
    (frames : Nat → Nat) (n : Nat) : Shut t q samples ends (p.renderAll frames n) := by
  induction n with
  | zero => exact h
  | succ n ih =>
      refine renderInto_invariant (fun _ _ hi hs => hi.audio ht hs) ?_
      exact ⟨ih.active, ih.queue, ih.shut, ih.samples, ih.ends, trivial⟩

/-! ## Draining -/

/-- All that `p` had of the turn is out in `p'`, in order: the samples copied, and one
`PlaybackFinished` posted for each end of a sentence. -/
structure DrainedTo (t : TurnId) (p p' : AudioOutput) : Prop where
  samples : p'.engine.written.map (·.sample) = p.engine.written.map (·.sample) ++ p.rest t
  ends : p'.engine.posted = p.engine.posted ++ p.marks t

/-- What is queued behind a gate that stays shut never comes out. -/
theorem ready_of_drainedTo {p : AudioOutput} {t : TurnId} (ht : t ≠ kNoTurn)
    (hactive : p.activeTurn = t) (hidle : p.engine.pc = .idle) {frames : Nat → Nat} {n : Nat}
    (h : DrainedTo t p (p.renderAll frames n)) : p.GateOpens t ∨ p.NothingQueued t := by
  by_contra hnot
  obtain ⟨hshut, hsome⟩ := not_or.mp hnot
  have hstart : Shut t p.queue (p.engine.written.map (·.sample) ++ p.engine.leftover)
      (p.engine.posted ++ p.engine.currentMark) p :=
    ⟨hactive, rfl, hshut, rfl, rfl, by rw [hidle]; trivial⟩
  have hend := hstart.renderAll ht frames n
  have hsamples := hend.samples
  have hends := hend.ends
  rw [h.samples, rest] at hsamples
  rw [h.ends, marks] at hends
  refine hsome ⟨List.length_eq_zero_iff.mp ?_, List.length_eq_zero_iff.mp ?_⟩
  · have hlen := congrArg List.length hsamples
    simp only [List.length_append] at hlen
    omega
  · have hlen := congrArg List.length hends
    simp only [List.length_append] at hlen
    omega

/-- A reply drains exactly if the prefill gate is open for its turn, or will open at the
samples that are queued, or if there is nothing behind it. -/
theorem drains_iff {p : AudioOutput} {t : TurnId} (ht : t ≠ kNoTurn) (hactive : p.activeTurn = t)
    (hidle : p.engine.pc = .idle) {frames : Nat → Nat} (hpos : ∀ i, 0 < frames i) :
    (∃ n, DrainedTo t p (p.renderAll frames n)) ↔ p.GateOpens t ∨ p.NothingQueued t := by
  refine ⟨fun ⟨n, h⟩ => ready_of_drainedTo ht hactive hidle h, fun hready => ?_⟩
  have hstart : Flowing t (p.engine.written.map (·.sample) ++ p.rest t)
      (p.engine.posted ++ p.marks t) p := ⟨hactive, rfl, rfl, hready⟩
  obtain ⟨n, -, hflow, hempty⟩ := iterate_finishes (Empty t)
    (fun q => (q.rest t).length) (fun i q hq => hq.renderInto ht (hpos i)) hstart
  refine ⟨n, ?_, ?_⟩
  · have hsamples := hflow.samples
    rwa [hempty.1, List.append_nil] at hsamples
  · have hends := hflow.ends
    rwa [hempty.2, List.append_nil] at hends

/-- One sentence of two samples and its empty end marker. -/
def shortReply (target : Nat) : AudioOutput where
  engine := { prefillTargetSamples := target }
  queue :=
    { chunks := [{ turn := 1, samples := [5, 6] }, { turn := 1, endOfSentence := true }] }
  activeTurn := 1

theorem drains_iff_shortReply :
    ∃ n, DrainedTo 1 (shortReply 2) ((shortReply 2).renderAll (fun _ => 4) n) := by
  have hpos : ∀ i : Nat, 0 < (fun _ => 4 : Nat → Nat) i := fun _ => Nat.zero_lt_succ 3
  have hiff := drains_iff (p := shortReply 2) (t := 1) (by decide) rfl rfl hpos
  exact hiff.mpr (.inl (.inr (.inr (by decide))))

/-- One sample below the target the reply is never heard, and its end is never posted. -/
theorem shortReply_never_drains :
    (shortReply 3).marks 1 = [{ turn := 1, seq := 0 }] ∧
      ∀ n, ¬ DrainedTo 1 (shortReply 3) ((shortReply 3).renderAll (fun _ => 4) n) := by
  refine ⟨by decide, fun n h => ?_⟩
  rcases ready_of_drainedTo (p := shortReply 3) (t := 1) (by decide) rfl rfl h with (h | h | h) | h
  · exact absurd h (by decide)
  · exact absurd h (by decide)
  · exact absurd h (by decide)
  · exact absurd h.1 (by decide)

end AudioOutput

end Acva.Playback

import Acva.Playback.Drain

/-! # What a turn sounds like

With no prefill target and one active turn, chunks come in between and during the
callbacks. The engine keeps the turn's chunks in three places: behind it the
consumed ones, in its hand the current one, and the rest in the queue.
-/

namespace Acva.Playback

open Acva.Bus Acva.Runs

/-- The samples of some chunks. -/
def soundOf (cs : List AudioChunk) : List Sample := cs.flatMap fun c => c.samples

/-- The sentences that end in some chunks. -/
def endsOf (cs : List AudioChunk) : List PlaybackFinished :=
  (cs.filter fun c => c.endOfSentence).map fun c => { turn := c.turn, seq := c.seq }

def ofTurn (t : TurnId) (cs : List AudioChunk) : List AudioChunk := cs.filter fun c => c.turn = t

theorem soundOf_append (cs ds : List AudioChunk) :
    soundOf (cs ++ ds) = soundOf cs ++ soundOf ds :=
  List.flatMap_append

theorem endsOf_append (cs ds : List AudioChunk) :
    endsOf (cs ++ ds) = endsOf cs ++ endsOf ds := by
  simp [endsOf]

theorem PlaybackEngine.retire_underruns (e : PlaybackEngine) :
    e.retire.underruns = e.underruns := by
  unfold retire
  split <;> rfl

namespace AudioOutput

/-! ## Feeding the engine -/

/-- The calls of a run whose active turn stays. -/
inductive FeedAction
  | render (frames : Nat)
  | audio
  | enqueue (chunk : AudioChunk)
  | relay
deriving DecidableEq, Repr

def FeedAction.output : FeedAction → OutputAction
  | .render frames => .render frames
  | .audio => .audio
  | .enqueue chunk => .enqueue chunk
  | .relay => .relay

def feedStep (p : AudioOutput) (a : FeedAction) : Option AudioOutput := p.step a.output

/-- The chunks that the queue took. -/
def feedNote (accepted : List AudioChunk) (p : AudioOutput) : FeedAction → List AudioChunk
  | .enqueue chunk => if (p.queue.enqueue chunk).1 = true then accepted ++ [chunk] else accepted
  | _ => accepted

/-- Nothing has been played; the turn `t` is active, and there is no prefill target. -/
def silent (t : TurnId) (cap : Nat) (loopbackSink : Bool) : AudioOutput where
  engine := { loopbackSink := loopbackSink }
  queue := { cap := cap }
  activeTurn := t

/-- The postbox is not full. -/
def PostboxHasRoom (p : AudioOutput) : Prop :=
  p.engine.postbox.items.length < p.engine.postbox.capacity

instance (p : AudioOutput) : Decidable p.PostboxHasRoom :=
  inferInstanceAs (Decidable (_ < _))

/-- What has been posted: the events that were relayed, and those in the postbox. -/
def postedEvents (p : AudioOutput) : List PlaybackFinished := p.relayed ++ p.engine.postbox.items

/-- The chunk that the engine holds. -/
def inHand (p : AudioOutput) : List AudioChunk :=
  if p.engine.current.turn ≠ kNoTurn then [p.engine.current] else []

/-- The buffer that is being filled, as far as it is. -/
def filling (p : AudioOutput) : List Sample :=
  match p.engine.pc with
  | .idle => []
  | .loop _ out => out
  | .gate _ out _ => out
  | .pop _ out _ => out

/-- Every sample of the turn has been copied out: no chunk of it waits in the queue, and the
one in the engine's hand is used up. -/
def Drained (t : TurnId) (p : AudioOutput) : Prop :=
  p.queue.ofTurn t = [] ∧ p.engine.leftover = []

/-! ## What the device got -/

/-- The device got what was copied, in order, and silence at the end of the buffers that
underran. A buffer is its samples and the length of its padding. -/
structure Emits (p : AudioOutput) (heard : List (List Sample × Nat)) : Prop where
  emitted : p.engine.emitted = heard.map fun b => b.1 ++ List.replicate b.2 0
  written : heard.flatMap Prod.fst ++ p.filling = p.engine.written.map (·.sample)
  underruns : (heard.filter fun b => 0 < b.2).length = p.engine.underruns

/-- The turn's chunks, by what became of them. -/
structure Follows (t : TurnId) (p : AudioOutput) (accepted done : List AudioChunk) : Prop where
  active : p.activeTurn = t
  noTarget : p.engine.prefillTargetSamples = 0
  chunks : ofTurn t accepted = done ++ p.inHand ++ p.queue.ofTurn t
  current : p.engine.current.turn = t ∨ p.engine.current = {}
  posted : p.engine.posted = endsOf done
  written : p.engine.written.map (·.sample) =
    soundOf done ++ p.engine.current.samples.take p.engine.pos
  pos : p.engine.pos ≤ p.engine.current.samples.length
  pc : match p.engine.pc with
    | .gate frames out turn => turn = t ∧ p.engine.current = {} ∧ out.length < frames
    | .pop frames out turn => turn = t ∧ p.engine.current = {} ∧ out.length < frames
    | _ => True

/-- Without a target the gate is open. -/
theorem gateOpen_of_noTarget {e : PlaybackEngine} (h : e.prefillTargetSamples = 0)
    (active : TurnId) (pending : Nat) : e.gateOpen active pending = true := by
  simp [PlaybackEngine.gateOpen, h]

theorem prime_of_noTarget {e : PlaybackEngine} (h : e.prefillTargetSamples = 0)
    (active : TurnId) : e.prime active = e := by
  simp [PlaybackEngine.prime, h]

/-! ## One step of the callback -/

section Step

variable {t : TurnId} {p p' : AudioOutput} {accepted done : List AudioChunk}
  {heard : List (List Sample × Nat)}

theorem endsOf_inHand (p : AudioOutput) : endsOf p.inHand = p.engine.currentMark := by
  unfold inHand endsOf PlaybackEngine.currentMark
  by_cases hturn : p.engine.current.turn = kNoTurn
  · simp [hturn]
  · by_cases hend : p.engine.current.endOfSentence = true <;> simp [hturn, hend]

theorem Follows.soundOf_inHand (h : Follows t p accepted done) (ht : t ≠ kNoTurn) :
    soundOf p.inHand = p.engine.current.samples := by
  rcases h.current with hcurrent | hcurrent
  · simp [inHand, hcurrent, ht, soundOf]
  · simp [inHand, hcurrent, soundOf]

theorem Follows.retire_empties (h : Follows t p accepted done) (ht : t ≠ kNoTurn) :
    p.engine.retire.current = {} ∧ p.engine.retire.pos = 0 := by
  rcases h.current with hcurrent | hcurrent
  · have hturn : p.engine.current.turn ≠ kNoTurn := hcurrent ▸ ht
    simp [PlaybackEngine.retire, hturn]
  · have hpos := h.pos
    rw [hcurrent] at hpos
    have hsame : p.engine.retire = p.engine := by simp [PlaybackEngine.retire, hcurrent]
    rw [hsame]
    exact ⟨hcurrent, Nat.le_zero.mp hpos⟩

/-- The chunk in hand goes to the consumed ones when it is retired, and its end is posted. -/
theorem Follows.retire (h : Follows t p accepted done) (ht : t ≠ kNoTurn) {frames : Nat}
    {out : List Sample} (hroom : out.length < frames) (hend : p.engine.leftover = []) :
    Follows t { p with engine := { p.engine.retire with pc := .gate frames out p.activeTurn } }
      accepted (done ++ p.inHand) := by
  have hretired := p.engine.retire_retired
  obtain ⟨hcurrent, hpos⟩ := h.retire_empties ht
  have hall : p.engine.current.samples.take p.engine.pos = p.engine.current.samples :=
    List.take_of_length_le (List.drop_eq_nil_iff.mp hend)
  refine ⟨h.active, hretired.prefillTargetSamples.trans h.noTarget, ?_, .inr hcurrent, ?_, ?_, ?_,
    h.active, hcurrent, hroom⟩
  · simp [inHand, hcurrent, h.chunks]
  · show p.engine.retire.posted = endsOf (done ++ p.inHand)
    rw [hretired.posted, h.posted, endsOf_append, endsOf_inHand]
  · show p.engine.retire.written.map (·.sample) = soundOf (done ++ p.inHand) ++
      p.engine.retire.current.samples.take p.engine.retire.pos
    rw [hretired.written, h.written, hall, soundOf_append, h.soundOf_inHand ht, hcurrent]
    simp
  · show p.engine.retire.pos ≤ p.engine.retire.current.samples.length
    rw [hpos]
    exact Nat.zero_le _

/-- A copy moves on in the chunk in hand. -/
theorem Follows.copy (h : Follows t p accepted done) (frames : Nat) (out : List Sample) :
    Follows t { p with engine := p.engine.copy frames out } accepted done := by
  have hlength : (p.engine.leftover.take (frames - out.length)).length ≤
      p.engine.current.samples.length - p.engine.pos := by
    rw [List.length_take, PlaybackEngine.leftover, List.length_drop]
    exact Nat.min_le_right _ _
  have hpos := h.pos
  refine ⟨h.active, h.noTarget, h.chunks, h.current, h.posted, ?_, ?_, trivial⟩
  · rw [PlaybackEngine.copy_written, h.written, List.append_assoc]
    show _ = soundOf done ++ p.engine.current.samples.take
      (p.engine.pos + (p.engine.leftover.take (frames - out.length)).length)
    rw [List.take_add]
    congr 2
    show _ = p.engine.leftover.take _
    simp
  · show p.engine.pos + (p.engine.leftover.take (frames - out.length)).length ≤
      p.engine.current.samples.length
    omega

/-- A step of the callback loses none of the turn's chunks. -/
theorem Follows.audio (h : Follows t p accepted done) (ht : t ≠ kNoTurn)
    (hstep : p.audio = some p') : ∃ done', Follows t p' accepted done' := by
  obtain ⟨engine, queue, hcase, rfl⟩ := audio_eq_some hstep
  have hpc := h.pc
  cases hcase with
  | finish frames out hloop _ =>
      exact ⟨done, h.active, h.noTarget, h.chunks, h.current, h.posted, h.written, h.pos, trivial⟩
  | retire frames out _ hroom hend => exact ⟨_, h.retire ht hroom hend⟩
  | copy frames out _ _ _ => exact ⟨done, h.copy frames out⟩
  | pass frames out turn hpass _ =>
      simp only [hpass] at hpc
      rw [prime_of_noTarget h.noTarget]
      exact ⟨done, h.active, h.noTarget, h.chunks, h.current, h.posted, h.written, h.pos, hpc⟩
  | hold frames out turn _ hshut =>
      rw [gateOpen_of_noTarget h.noTarget] at hshut
      cases hshut
  | underrun frames out turn _ hpop hnone =>
      simp only [hpop] at hpc
      obtain ⟨rfl, -, -⟩ := hpc
      obtain ⟨hqueue, hgone⟩ := PlaybackQueue.dequeueActive_eq_none hnone
      have hempty : queue.ofTurn turn = p.queue.ofTurn turn := by
        rw [hqueue, PlaybackQueue.ofTurn, hgone]
        rfl
      refine ⟨done, h.active, h.noTarget, ?_, h.current, h.posted, h.written, h.pos, trivial⟩
      show ofTurn turn accepted = done ++ p.inHand ++ queue.ofTurn turn
      rw [hempty, h.chunks]
  | take frames out turn chunk _ hpop hsome =>
      simp only [hpop] at hpc
      obtain ⟨rfl, hcurrent, -⟩ := hpc
      obtain ⟨hturn, hfirst, -⟩ := PlaybackQueue.dequeueActive_eq_some hsome
      refine ⟨done, h.active, h.noTarget, ?_, .inl hturn, h.posted, ?_, Nat.zero_le _, trivial⟩
      · have hchunks := h.chunks
        simp only [inHand, hcurrent, ne_eq, not_true_eq_false, ↓reduceIte, List.append_nil] at hchunks
        rw [hchunks, hfirst]
        simp [inHand, hturn, ht]
      · have hwritten := h.written
        rw [hcurrent] at hwritten
        simpa using hwritten

/-- A step of the callback hands out what it copied, or goes on filling the buffer. -/
theorem Emits.audio (he : Emits p heard) (h : Follows t p accepted done)
    (hstep : p.audio = some p') : ∃ heard', Emits p' heard' := by
  obtain ⟨engine, queue, hcase, rfl⟩ := audio_eq_some hstep
  obtain ⟨hemitted, hwritten, hunderruns⟩ := he
  have hpc := h.pc
  cases hcase with
  | finish frames out hloop _ =>
      refine ⟨heard ++ [(out, 0)], ?_, ?_, ?_⟩
      · simp [PlaybackEngine.finish, hemitted]
      · refine Eq.trans ?_ hwritten
        simp [filling, hloop, PlaybackEngine.finish]
      · simp [PlaybackEngine.finish, hunderruns]
  | retire frames out hloop _ _ =>
      have hretired := p.engine.retire_retired
      refine ⟨heard, hretired.emitted.trans hemitted, ?_,
        hunderruns.trans p.engine.retire_underruns.symm⟩
      show heard.flatMap Prod.fst ++ out = p.engine.retire.written.map (·.sample)
      rw [hretired.written, ← hwritten]
      simp [filling, hloop]
  | copy frames out hloop _ _ =>
      refine ⟨heard, hemitted, ?_, hunderruns⟩
      rw [PlaybackEngine.copy_written, ← hwritten]
      simp [filling, hloop, PlaybackEngine.copy]
  | pass frames out turn hpass _ =>
      rw [prime_of_noTarget h.noTarget]
      refine ⟨heard, hemitted, ?_, hunderruns⟩
      refine Eq.trans ?_ hwritten
      simp [filling, hpass]
  | hold frames out turn _ hshut =>
      rw [gateOpen_of_noTarget h.noTarget] at hshut
      cases hshut
  | underrun frames out turn _ hpop _ =>
      simp only [hpop] at hpc
      obtain ⟨-, -, hroom⟩ := hpc
      refine ⟨heard ++ [(out, frames - out.length)], ?_, ?_, ?_⟩
      · simp [PlaybackEngine.fallSilent, hemitted]
      · refine Eq.trans ?_ hwritten
        simp [filling, hpop, PlaybackEngine.fallSilent]
      · have hpos : 0 < frames - out.length := Nat.sub_pos_of_lt hroom
        simp [hunderruns, hpos]
  | take frames out turn chunk _ hpop _ =>
      refine ⟨heard, hemitted, ?_, hunderruns⟩
      refine Eq.trans ?_ hwritten
      simp [filling, hpop]

/-! ## The postbox -/

/-- Nothing that was posted has been lost. -/
structure KeepsPosts (p : AudioOutput) : Prop where
  opened : p.engine.postbox.closed = false
  events : p.postedEvents = p.engine.posted

theorem retire_postbox {e : PlaybackEngine} (hopen : e.postbox.closed = false)
    (hroom : e.postbox.items.length < e.postbox.capacity) :
    e.retire.postbox.closed = false ∧ e.retire.postbox.items = e.postbox.items ++ e.currentMark := by
  have hnotFull : e.postbox.full = false := by simpa [BoundedQueue.full] using hroom
  unfold PlaybackEngine.retire PlaybackEngine.currentMark
  by_cases hturn : e.current.turn = kNoTurn
  · simp [hturn, hopen]
  · by_cases hend : e.current.endOfSentence = true
    · simp [hturn, hend, BoundedQueue.push, hopen, hnotFull, BoundedQueue.append]
    · simp [hturn, hend, hopen]

theorem KeepsPosts.audio (h : p.KeepsPosts) (hroom : p.PostboxHasRoom)
    (hstep : p.audio = some p') : p'.KeepsPosts := by
  obtain ⟨engine, queue, hcase, rfl⟩ := audio_eq_some hstep
  obtain ⟨hopen, hevents⟩ := h
  cases hcase with
  | finish frames out _ _ => exact ⟨hopen, hevents⟩
  | retire frames out _ _ _ =>
      obtain ⟨hstill, hitems⟩ := retire_postbox hopen hroom
      refine ⟨hstill, ?_⟩
      show p.relayed ++ p.engine.retire.postbox.items = p.engine.retire.posted
      rw [hitems, p.engine.retire_retired.posted, ← hevents, postedEvents, List.append_assoc]
  | copy frames out _ _ _ => exact ⟨hopen, hevents⟩
  | pass frames out turn _ _ =>
      rw [PlaybackEngine.prime_eq]
      exact ⟨hopen, hevents⟩
  | hold frames out turn _ _ => exact ⟨hopen, hevents⟩
  | underrun frames out turn _ _ _ => exact ⟨hopen, hevents⟩
  | take frames out turn chunk _ _ _ => exact ⟨hopen, hevents⟩

theorem tryPop_items (q : BoundedQueue PlaybackFinished) :
    q.tryPop.1.toList ++ q.tryPop.2.items = q.items ∧ q.tryPop.2.closed = q.closed := by
  unfold BoundedQueue.tryPop
  cases hitems : q.items with
  | nil => simp [hitems]
  | cons x rest => simp

theorem KeepsPosts.relay (h : p.KeepsPosts) : KeepsPosts { p with
    engine := { p.engine with postbox := p.engine.postbox.tryPop.2 }
    relayed := p.relayed ++ p.engine.postbox.tryPop.1.toList } := by
  obtain ⟨hitems, hclosed⟩ := tryPop_items p.engine.postbox
  refine ⟨hclosed.trans h.opened, ?_⟩
  show p.relayed ++ p.engine.postbox.tryPop.1.toList ++ p.engine.postbox.tryPop.2.items = _
  rw [List.append_assoc, hitems]
  exact h.events

end Step

/-! ## One step of a run -/

/-- What holds after each step of a run: `t`'s chunks, the buffers, and the postbox. -/
structure Plays (t : TurnId) (p : AudioOutput) (accepted : List AudioChunk) : Prop where
  follows : ∃ done, Follows t p accepted done
  emits : ∃ heard, Emits p heard
  posts : p.KeepsPosts

variable {t : TurnId} {p p' : AudioOutput} {accepted accepted' : List AudioChunk}

theorem Plays.start (t : TurnId) (cap : Nat) (loopbackSink : Bool) :
    Plays t (silent t cap loopbackSink) [] :=
  ⟨⟨[], rfl, rfl, rfl, .inr rfl, rfl, rfl, Nat.le_refl _, trivial⟩, ⟨[], rfl, rfl, rfl⟩, rfl, rfl⟩

/-- A chunk that the queue takes is the last of its turn. -/
theorem enqueue_ofTurn (t : TurnId) (chunk : AudioChunk) (q : PlaybackQueue)
    (accepted : List AudioChunk) (before : List AudioChunk)
    (h : ofTurn t accepted = before ++ q.ofTurn t) :
    ofTurn t (if (q.enqueue chunk).1 = true then accepted ++ [chunk] else accepted) =
      before ++ (q.enqueue chunk).2.ofTurn t := by
  unfold PlaybackQueue.enqueue
  split
  · exact h
  · show ofTurn t (accepted ++ [chunk]) = before ++ ofTurn t (q.chunks ++ [chunk])
    rw [ofTurn, List.filter_append, ofTurn, List.filter_append, ← List.append_assoc]
    exact congrArg (· ++ _) h

theorem Plays.step (ht : t ≠ kNoTurn) (h : Plays t p accepted) (hroom : p.PostboxHasRoom)
    {a : FeedAction} (hstep : feedStep p a = some p') : Plays t p' (feedNote accepted p a) := by
  obtain ⟨⟨done, hfollows⟩, ⟨heard, hemits⟩, hposts⟩ := h
  cases a with
  | audio =>
      exact ⟨hfollows.audio ht hstep, hemits.audio hfollows hstep, hposts.audio hroom hstep⟩
  | render frames =>
      simp only [feedStep, FeedAction.output, AudioOutput.step] at hstep
      split at hstep
      next hidle =>
        cases hstep
        refine ⟨⟨done, hfollows.active, hfollows.noTarget, hfollows.chunks, hfollows.current,
          hfollows.posted, hfollows.written, hfollows.pos, trivial⟩, ⟨heard, hemits.emitted, ?_,
          hemits.underruns⟩, hposts.opened, hposts.events⟩
        have hwritten := hemits.written
        simpa [filling, hidle, PlaybackEngine.begin] using hwritten
      next => cases hstep
  | enqueue chunk =>
      cases hstep
      refine ⟨⟨done, hfollows.active, hfollows.noTarget, ?_, hfollows.current, hfollows.posted,
        hfollows.written, hfollows.pos, hfollows.pc⟩, ⟨heard, hemits.emitted, hemits.written,
        hemits.underruns⟩, hposts.opened, hposts.events⟩
      exact enqueue_ofTurn t chunk p.queue accepted _ hfollows.chunks
  | relay =>
      cases hstep
      refine ⟨⟨done, hfollows.active, hfollows.noTarget, hfollows.chunks, hfollows.current,
        hfollows.posted, hfollows.written, hfollows.pos, hfollows.pc⟩, ⟨heard, hemits.emitted,
        hemits.written, hemits.underruns⟩, hposts.relay⟩

theorem Plays.run (ht : t ≠ kNoTurn) {acts : List FeedAction} (h : Plays t p accepted)
    (hrun : run (watch feedStep feedNote) (p, accepted) acts = some (p', accepted'))
    (hroom : Always (watch feedStep feedNote) (fun w _ => w.1.PostboxHasRoom) (p, accepted) acts) :
    Plays t p' accepted' := by
  have hkeeps : ∀ (w : AudioOutput × List AudioChunk) (a : FeedAction)
      (w' : AudioOutput × List AudioChunk), Plays t w.1 w.2 → w.1.PostboxHasRoom →
        watch feedStep feedNote w a = some w' → Plays t w'.1 w'.2 := by
    intro w a w' hw hok hs
    obtain ⟨hstep, hnote⟩ := watch_eq_some.mp hs
    rw [hnote]
    exact hw.step ht hok hstep
  exact run_invariant hkeeps hrun hroom h

/-! ## Runs -/

/-- What was played of turn `t`, and what was posted, against the chunks the queue took. -/
structure RendersTurn (t : TurnId) (p : AudioOutput) (accepted : List AudioChunk) : Prop where
  output : ∃ heard, Emits p heard
  played : p.engine.written.map (·.sample) <+: soundOf (ofTurn t accepted)
  whole : p.Drained t → p.engine.written.map (·.sample) = soundOf (ofTurn t accepted)
  posted : ∃ done, done <+: ofTurn t accepted ∧ p.postedEvents = endsOf done ∧
    soundOf done <+: p.engine.written.map (·.sample)

theorem Plays.rendersTurn (ht : t ≠ kNoTurn) (h : Plays t p accepted) :
    RendersTurn t p accepted := by
  obtain ⟨⟨done, hfollows⟩, hemits, hposts⟩ := h
  have hsound : soundOf (ofTurn t accepted) =
      soundOf done ++ p.engine.current.samples ++ soundOf (p.queue.ofTurn t) := by
    rw [hfollows.chunks, soundOf_append, soundOf_append, hfollows.soundOf_inHand ht]
  refine ⟨hemits, ?_, fun hdrained => ?_, done, ?_, ?_, ?_⟩
  · rw [hsound, hfollows.written, List.append_assoc]
    refine List.prefix_append_right_inj _ |>.mpr ?_
    exact (List.take_prefix _ _).trans (List.prefix_append _ _)
  · have hall := List.take_of_length_le (List.drop_eq_nil_iff.mp hdrained.2)
    rw [hsound, hfollows.written, hdrained.1, hall]
    exact (List.append_nil _).symm
  · rw [hfollows.chunks, List.append_assoc]
    exact List.prefix_append _ _
  · rw [hposts.events, hfollows.posted]
  · rw [hfollows.written]
    exact List.prefix_append _ _

/-- The ends of `ends` are posted, or the callback that began posts the last one first. -/
def PostsNext (ends : List PlaybackFinished) (p : AudioOutput) : Prop :=
  ends <+: p.engine.posted ∨
    (p.engine.posted ++ p.engine.currentMark = ends ∧ p.engine.leftover = [] ∧
      ∃ frames, 0 < frames ∧ p.engine.pc = .loop frames [])

theorem audio_posted (h : p.audio = some p') : p.engine.posted <+: p'.engine.posted := by
  obtain ⟨engine, queue, hcase, rfl⟩ := audio_eq_some h
  cases hcase with
  | finish frames out _ _ => exact List.prefix_rfl
  | retire frames out _ _ _ =>
      rw [show (_ : List PlaybackFinished) = _ from p.engine.retire_retired.posted]
      exact List.prefix_append _ _
  | copy frames out _ _ _ => exact List.prefix_rfl
  | pass frames out turn _ _ =>
      have hposted := congrArg PlaybackEngine.posted (p.engine.prime_eq turn)
      exact ⟨[], (List.append_nil _).trans hposted.symm⟩
  | hold frames out turn _ _ => exact List.prefix_rfl
  | underrun frames out turn _ _ _ => exact List.prefix_rfl
  | take frames out turn chunk _ _ _ => exact List.prefix_rfl

theorem PostsNext.step {ends : List PlaybackFinished} (h : PostsNext ends p) {a : FeedAction}
    (hstep : feedStep p a = some p') : PostsNext ends p' := by
  cases a with
  | enqueue chunk =>
      cases hstep
      exact h
  | relay =>
      cases hstep
      exact h
  | render frames =>
      simp only [feedStep, FeedAction.output, AudioOutput.step] at hstep
      split at hstep
      next hidle =>
        cases hstep
        refine h.imp_right fun ⟨_, _, frames', _, hloop⟩ => ?_
        rw [hidle] at hloop
        cases hloop
      next => cases hstep
  | audio =>
      rcases h with hposted | ⟨hmark, hleft, frames, hpos, hloop⟩
      · exact .inl (hposted.trans (audio_posted hstep))
      obtain ⟨engine, queue, hcase, rfl⟩ := audio_eq_some hstep
      left
      cases hcase with
      | retire frames out _ _ _ =>
          have hposted := p.engine.retire_retired.posted.trans hmark
          exact ⟨[], (List.append_nil _).trans hposted.symm⟩
      | finish frames' out hpc hfull =>
          rw [hloop] at hpc
          cases hpc
          exact absurd hfull (Nat.not_le.mpr hpos)
      | copy _ _ _ _ hmore => exact absurd hleft hmore
      | pass _ _ _ hpc _ => simp [hloop] at hpc
      | hold _ _ _ hpc _ => simp [hloop] at hpc
      | underrun _ _ _ _ hpc _ => simp [hloop] at hpc
      | take _ _ _ _ _ hpc _ => simp [hloop] at hpc

/-- Whatever is enqueued and whenever the device asks, it gets the chunks of the active turn;
and a callback for one frame more, once all of them are out, posts the last end. -/
theorem run_rendersTurn {cap : Nat} {loopbackSink : Bool} {acts : List FeedAction}
    (ht : t ≠ kNoTurn)
    (hrun : run (watch feedStep feedNote) (silent t cap loopbackSink, []) acts =
      some (p, accepted))
    (hroom : Always (watch feedStep feedNote) (fun w _ => w.1.PostboxHasRoom)
      (silent t cap loopbackSink, []) acts) :
    RendersTurn t p accepted ∧
      ∀ frames more, 0 < frames → p.engine.pc = .idle → p.Drained t →
        ∀ p' accepted', run (watch feedStep feedNote) (p, accepted) (.render frames :: more) =
          some (p', accepted') →
        Always (watch feedStep feedNote) (fun w _ => w.1.PostboxHasRoom) (p, accepted)
          (.render frames :: more) →
        p'.engine.pc = .idle → endsOf (ofTurn t accepted) <+: p'.postedEvents := by
  have hplays := (Plays.start t cap loopbackSink).run ht hrun hroom
  refine ⟨hplays.rendersTurn ht, ?_⟩
  intro frames more hpos hidle hdrained p' accepted' hmore hroom' hidle'
  have hends : p.engine.posted ++ p.engine.currentMark = endsOf (ofTurn t accepted) := by
    obtain ⟨done, hfollows⟩ := hplays.follows
    rw [hfollows.chunks, hdrained.1, List.append_nil, endsOf_append, endsOf_inHand,
      hfollows.posted]
  have hposts := (hplays.run ht hmore hroom').posts
  obtain ⟨q, hq, hrest⟩ := run_cons_eq_some.mp (run_of_watch hmore)
  have hnext : PostsNext (endsOf (ofTurn t accepted)) q := by
    simp only [feedStep, FeedAction.output, AudioOutput.step, if_pos hidle] at hq
    cases hq
    exact .inr ⟨hends, hdrained.2, frames, hpos, rfl⟩
  have hlast := run_preserves (PostsNext (endsOf (ofTurn t accepted)))
    (fun _ _ _ hi hs => hi.step hs) hrest hnext
  rw [hposts.events]
  refine hlast.resolve_right fun ⟨_, _, frames', _, hloop⟩ => ?_
  rw [hidle'] at hloop
  cases hloop

/-- A sentence of two samples, a chunk of another turn, and an end without samples. -/
def twoEnds : List FeedAction :=
  [.enqueue { turn := 1, samples := [5, 6], endOfSentence := true }, .render 3, .audio, .audio,
    .enqueue { turn := 2, samples := [7] }, .audio, .audio, .audio,
    .enqueue { turn := 1, seq := 1, endOfSentence := true }, .audio, .audio, .relay, .audio, .audio,
    .audio]

/-- A callback that finds nothing. -/
def emptyCallback : List FeedAction := [.render 1, .audio, .audio, .audio]

theorem run_rendersTurn_twoEnds :
    ∃ p accepted p' accepted',
      run (watch feedStep feedNote) (silent 1 8 false, []) twoEnds = some (p, accepted) ∧
      run (watch feedStep feedNote) (p, accepted) emptyCallback = some (p', accepted') ∧
      RendersTurn 1 p accepted ∧ p.engine.emitted = [[5, 6, 0]] ∧
      endsOf (ofTurn 1 accepted) <+: p'.postedEvents ∧
      p'.postedEvents = [{ turn := 1, seq := 0 }, { turn := 1, seq := 1 }] := by
  obtain ⟨p, accepted, hrun⟩ : ∃ p accepted,
      run (watch feedStep feedNote) (silent 1 8 false, []) twoEnds = some (p, accepted) :=
    ⟨_, _, rfl⟩
  have hroom : Always (watch feedStep feedNote) (fun w _ => w.1.PostboxHasRoom)
      (silent 1 8 false, []) twoEnds := by decide
  obtain ⟨hrenders, hnext⟩ := run_rendersTurn (by decide) hrun hroom
  cases hrun
  refine ⟨_, _, _, _, rfl, rfl, hrenders, rfl, ?_, rfl⟩
  exact hnext 1 [.audio, .audio, .audio] (by decide) rfl ⟨rfl, rfl⟩ _ _ rfl (by decide) rfl

end AudioOutput

end Acva.Playback

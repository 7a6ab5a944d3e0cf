import Acva.Orchestrator.TtsStack

/-! # Silence after a barge-in

A turn is to fall silent once `on_user_interrupted` has returned for it, and once
the active turn has moved off it. It does in the callbacks that start later,
unless one starts with an unfinished chunk of the turn in the engine, which
neither the clear nor the active turn reaches; a chunk was past its look at the
token when the queue was cleared; a sentence of the turn finds a fresh token; or
the turn becomes active again.
-/

namespace Acva.Orchestrator

open Acva.Audio Acva.Dialogue Acva.Playback Acva.Runs

/-- A turn is to be silent in the callbacks after the `call`th. -/
structure Moment where
  turn : TurnId
  call : Nat
deriving DecidableEq, Repr

structure Moments where
  interrupted : List Moment := []
  movedOff : List Moment := []
deriving DecidableEq, Repr

namespace Moments

def all (m : Moments) : List Moment := m.interrupted ++ m.movedOff

end Moments

namespace TtsStack

variable {ρ : Type}

/-- The moments at which `on_user_interrupted` returns, and at which the active turn
moves off a turn. -/
def noteMoment (m : Moments) (s : TtsStack ρ) (a : TtsAction) : Moments :=
  match a with
  | .handler =>
      match s.bridge.handler with
      | .cancelling turn [] =>
          { m with interrupted := m.interrupted ++ [⟨turn, s.output.engine.calls⟩] }
      | _ => m
  | .output (.setActive turn) =>
      if turn = s.output.activeTurn then m
      else { m with movedOff := m.movedOff ++ [⟨s.output.activeTurn, s.output.engine.calls⟩] }
  | _ => m

/-- No sample of a turn is written by a callback after the ones its moments allow. -/
def Silent (s : TtsStack ρ) (m : Moments) : Prop :=
  ∀ moment ∈ m.all, ∀ w ∈ s.output.engine.written, w.turn = moment.turn → w.call ≤ moment.call

/-- The map holds a cancelled token for the turn. -/
def HoldsCancelled (turn : TurnId) (b : TtsBridge ρ) : Prop :=
  ∃ tok, b.tokens turn = some tok ∧ b.pool.isCancelled tok = true

/-- If the clear is next, no sample of the turn is past the look at its token. -/
def NothingInHand (b : TtsBridge ρ) : HandlerPc → Prop
  | .cancelling turn [] =>
      ∀ job, b.io.job = some job → job.sentence.turn = turn → b.io.inHand = []
  | _ => True

/-- The condition on one step, by what it does: a sentence of an interrupted turn finds a
cancelled token; the clear finds nothing in hand; a callback does not start inside a chunk
of a silenced turn; and the active turn never comes back. -/
def Hushes (w : TtsStack ρ × Moments) : TtsAction → Prop
  | .event (.llmSentence e) =>
      e.turn ∈ w.2.interrupted.map (·.turn) → HoldsCancelled e.turn w.1.bridge
  | .handler => NothingInHand w.1.bridge w.1.bridge.handler
  | .output (.render frames) =>
      0 < frames → w.1.output.engine.leftover ≠ [] →
        w.1.output.engine.current.turn ∉ w.2.all.map (·.turn)
  | .output (.setActive turn) => turn ∉ w.2.movedOff.map (·.turn)
  | _ => True

instance (turn : TurnId) (b : TtsBridge ρ) : Decidable (HoldsCancelled turn b) :=
  inferInstanceAs (Decidable (∃ tok ∈ b.tokens turn, b.pool.isCancelled tok = true))

instance (b : TtsBridge ρ) : ∀ pc, Decidable (NothingInHand b pc)
  | .cancelling turn [] =>
      inferInstanceAs (Decidable (∀ job ∈ b.io.job, job.sentence.turn = turn → b.io.inHand = []))
  | .cancelling _ (_ :: _) => isTrue trivial
  | .idle => isTrue trivial

instance (w : TtsStack ρ × Moments) (a : TtsAction) : Decidable (Hushes w a) := by
  unfold Hushes
  split <;> infer_instance

/-! ## The bridge after the interruption -/

/-- The bridge has nothing left of the turn, in hand or queued. -/
structure Quiet (t : TurnId) (b : TtsBridge ρ) (q : PlaybackQueue) : Prop where
  pending : ∀ job ∈ b.pending, job.sentence.turn ≠ t
  cancelled : ∀ job, b.io.job = some job → job.sentence.turn = t →
    b.pool.isCancelled job.cancel = true
  inHand : ∀ job, b.io.job = some job → job.sentence.turn = t → b.io.inHand = []
  queue : ∀ c ∈ q.chunks, c.turn = t → c.samples = []

/-- Inside `on_user_interrupted`: what is still in hand of the turn is about to be cancelled. -/
structure Hushing (t : TurnId) (toCancel : List TokenRef) (b : TtsBridge ρ) : Prop where
  pending : ∀ job ∈ b.pending, job.sentence.turn ≠ t
  cancelled : ∀ job, b.io.job = some job → job.sentence.turn = t →
    job.cancel ∈ toCancel ∨ b.pool.isCancelled job.cancel = true

/-- The handler cancels the next token. -/
theorem Hushing.cancel {t : TurnId} {tok : TokenRef} {rest : List TokenRef} {b : TtsBridge ρ}
    (h : Hushing t (tok :: rest) b) :
    Hushing t rest { b with pool := b.pool.cancel tok, handler := .cancelling t rest } := by
  refine ⟨h.pending, fun job hjob ht => ?_⟩
  rcases h.cancelled job hjob ht with hmem | hdead
  · rcases List.mem_cons.mp hmem with rfl | hmem
    · exact .inr (TokenPool.isCancelled_cancel.mpr (.inl rfl))
    · exact .inl hmem
  · exact .inr (TokenPool.isCancelled_cancel.mpr (.inr hdead))

structure BridgeInv (b : TtsBridge ρ) (q : PlaybackQueue) (m : Moments) : Prop where
  inFlight : ∀ job, b.io.job = some job → b.inFlight = some job.cancel
  hushing : ∀ t toCancel, b.handler = .cancelling t toCancel → Hushing t toCancel b
  quiet : ∀ moment ∈ m.interrupted, Quiet moment.turn b q

/-- Nothing new of the turn, and no token comes back to life. -/
theorem Quiet.mono {t : TurnId} {b b' : TtsBridge ρ} {q q' : PlaybackQueue} (hq : Quiet t b q)
    (hpending : ∀ job ∈ b'.pending, job ∈ b.pending ∨ job.sentence.turn ≠ t)
    (hio : b'.io = b.io)
    (hpool : ∀ tok, b.pool.isCancelled tok = true → b'.pool.isCancelled tok = true)
    (hqueue : ∀ c ∈ q'.chunks, c ∈ q.chunks) : Quiet t b' q' := by
  refine ⟨fun job hjob => ?_, fun job hjob ht => ?_, fun job hjob ht => ?_, fun c hc ht => ?_⟩
  · rcases hpending job hjob with hold | hother
    · exact hq.pending job hold
    · exact hother
  · exact hpool _ (hq.cancelled job (hio ▸ hjob) ht)
  · rw [hio]
    exact hq.inHand job (hio ▸ hjob) ht
  · exact hq.queue c (hqueue c hc) ht

theorem Quiet.hand {t : TurnId} {b b' : TtsBridge ρ} {q q' : PlaybackQueue} (hq : Quiet t b q)
    (h : HandStep q b b' q') (hpool : b'.pool = b.pool) : Quiet t b' q' := by
  obtain ⟨hpending, hcancelled⟩ := h.held (fun job => job.sentence.turn = t)
    (fun job => b.pool.isCancelled job.cancel = true) hq.pending hq.cancelled
  refine ⟨hpending, hpool ▸ hcancelled, fun job hjob ht => ?_, fun c hc ht => ?_⟩
  · cases h with
    | takes job' hrest hjob' hnone hinFlight hsame => exact hnone
    | keeps job' hrest hold hjob' hinFlight hlook hchunks =>
        have hdead := hcancelled job hjob ht
        rw [Option.some.inj (hjob.symm.trans hjob')] at hdead
        refine hlook.resolve_right ?_
        rw [hdead]
        exact Bool.noConfusion
    | drops hrest hnone hsame =>
        rw [hnone] at hjob
        cases hjob
  · cases h with
    | takes job hrest hjob hnone hinFlight hsame => exact hq.queue c (hsame ▸ hc) ht
    | keeps job hrest hold hjob hinFlight hlook hchunks =>
        rcases hchunks c hc with hc | ⟨hturn, hsamples⟩
        · exact hq.queue c hc ht
        · rw [hsamples]
          exact hq.inHand job hold (hturn ▸ ht)
    | drops hrest hnone hsame => exact hq.queue c (hsame ▸ hc) ht

theorem BridgeInv.hand {b b' : TtsBridge ρ} {q q' : PlaybackQueue} {m : Moments}
    (hi : BridgeInv b q m) (h : HandStep q b b' q') (hpool : b'.pool = b.pool)
    (hhandler : b'.handler = b.handler) : BridgeInv b' q' m := by
  refine ⟨fun job hjob => ?_, fun t toCancel ht => ?_, fun moment hm =>
    (hi.quiet moment hm).hand h hpool⟩
  · cases h with
    | takes job' hrest hjob' hnone hinFlight hsame =>
        rw [hinFlight, Option.some.inj (hjob'.symm.trans hjob)]
    | keeps job' hrest hold hjob' hinFlight hlook hchunks =>
        rw [hinFlight]
        exact hi.inFlight job (hold.trans (hjob'.symm.trans hjob))
    | drops hrest hnone hsame =>
        rw [hnone] at hjob
        cases hjob
  · have hhush := hi.hushing t toCancel (hhandler ▸ ht)
    obtain ⟨hpending, hcancelled⟩ := h.held (fun job => job.sentence.turn = t)
      (fun job => job.cancel ∈ toCancel ∨ b.pool.isCancelled job.cancel = true)
      hhush.pending hhush.cancelled
    exact ⟨hpending, hpool ▸ hcancelled⟩

/-- A step that leaves the I/O thread where it is and adds no job of an interrupted turn. -/
theorem BridgeInv.mono {b b' : TtsBridge ρ} {q q' : PlaybackQueue} {m : Moments}
    (hi : BridgeInv b q m) (h : LeavesIo b b')
    (hpending : ∀ moment ∈ m.interrupted, ∀ job ∈ b'.pending,
      job ∈ b.pending ∨ job.sentence.turn ≠ moment.turn)
    (hhushing : ∀ t toCancel, b'.handler = .cancelling t toCancel → Hushing t toCancel b')
    (hqueue : ∀ c ∈ q'.chunks, c ∈ q.chunks) : BridgeInv b' q' m := by
  refine ⟨fun job hjob => ?_, hhushing, fun moment hm => ?_⟩
  · rw [h.inFlight]
    exact hi.inFlight job (h.io ▸ hjob)
  · exact (hi.quiet moment hm).mono (hpending moment hm) h.io h.pool hqueue

/-- An event adds no job of a turn whose sentences find a cancelled token. -/
theorem eventStep_addsNone {b b' : TtsBridge ρ} {e : Event} (h : EventStep b b' e)
    {turn : TurnId} (hok : ∀ i, e = .llmSentence i → i.turn = turn → HoldsCancelled turn b) :
    ∀ job ∈ b'.pending, job ∈ b.pending ∨ job.sentence.turn ≠ turn := by
  intro job hjob
  cases h with
  | accepts i tok hlive hpending hhandler =>
      rw [hpending] at hjob
      rcases List.mem_append.mp hjob with hold | hnew
      · exact .inl hold
      · right
        rw [List.mem_singleton.mp hnew]
        intro hturn
        -- the sentence would have found a cancelled token
        obtain ⟨dead, htok, hdead⟩ := hok i rfl hturn
        rw [hlive dead (hturn ▸ htok)] at hdead
        cases hdead
  | interrupts i toCancel hinFlight hpending hhandler =>
      rw [hpending] at hjob
      exact .inl (List.mem_of_mem_filter hjob)
  | passes e hpending hhandler => exact .inl (hpending ▸ hjob)

theorem BridgeInv.event {s : TtsStack ρ} {m : Moments} {e : Event} {b' : TtsBridge ρ}
    (hi : BridgeInv s.bridge s.output.queue m) (hok : Hushes (s, m) (.event e))
    (h : s.bridge.onEvent e = some b') : BridgeInv b' s.output.queue m := by
  obtain ⟨hidle, hcase, hleaves⟩ := TtsBridge.onEvent_step h
  have hnone : ∀ {b : TtsBridge ρ}, b.handler = .idle →
      ∀ t toCancel, b.handler = .cancelling t toCancel → Hushing t toCancel b := by
    intro b hb t toCancel ht
    rw [hb] at ht
    cases ht
  have hpurged : ∀ moment ∈ m.interrupted, ∀ job ∈ b'.pending,
      job ∈ s.bridge.pending ∨ job.sentence.turn ≠ moment.turn := by
    intro moment hm
    apply eventStep_addsNone hcase
    rintro i rfl hturn
    rw [← hturn]
    exact hok (List.mem_map.mpr ⟨moment, hm, hturn.symm⟩)
  cases hcase with
  | accepts e tok hlive hpending hhandler =>
      exact hi.mono hleaves hpurged (hnone hhandler) fun c hc => hc
  | interrupts e toCancel hinFlight hpending hhandler =>
      refine hi.mono hleaves hpurged (fun t toCancel' ht => ?_) fun c hc => hc
      rw [hhandler] at ht
      cases ht
      refine ⟨fun job hjob => ?_, fun job hjob _ => ?_⟩
      · rw [hpending] at hjob
        simpa using (List.mem_filter.mp hjob).2
      · exact .inl (hinFlight _ (hi.inFlight job (hleaves.io ▸ hjob)))
  | passes e hpending hhandler =>
      exact hi.mono hleaves hpurged (hnone hhandler) fun c hc => hc

theorem BridgeInv.handler {s : TtsStack ρ} {m : Moments} {b' : TtsBridge ρ} {q' : PlaybackQueue}
    (hi : BridgeInv s.bridge s.output.queue m) (hok : Hushes (s, m) .handler)
    (h : s.bridge.handlerStep s.output.queue = some (b', q')) :
    BridgeInv b' q' (noteMoment m s .handler) := by
  obtain ⟨turn, tok, rest, hpc, rfl, rfl⟩ | ⟨turn, hpc, rfl, rfl⟩ :=
    TtsBridge.handlerStep_eq_some h
  · have hnote : noteMoment m s .handler = m := by simp only [noteMoment, hpc]
    have hhush := hi.hushing turn (tok :: rest) hpc
    rw [hnote]
    refine hi.mono ⟨rfl, rfl, fun t ht => TokenPool.isCancelled_cancel.mpr (.inr ht)⟩
      (fun _ _ job hjob => .inl hjob) (fun t toCancel ht => ?_) fun c hc => hc
    cases ht
    exact hhush.cancel
  · have hhush := hi.hushing turn [] hpc
    have hhand : NothingInHand s.bridge (.cancelling turn []) := hpc ▸ hok
    have hkeep : BridgeInv { s.bridge with handler := .idle } s.output.queue.clear.2 m :=
      hi.mono ⟨rfl, rfl, fun _ ht => ht⟩ (fun _ _ job hjob => .inl hjob)
        (fun t toCancel ht => by cases ht) (fun c hc => by cases hc)
    refine ⟨hkeep.inFlight, hkeep.hushing, fun moment hm => ?_⟩
    simp only [noteMoment, hpc] at hm
    rcases List.mem_append.mp hm with hm | hm
    · exact hkeep.quiet moment hm
    · rw [List.mem_singleton.mp hm]
      refine ⟨hhush.pending, fun job hjob ht => ?_, hhand, fun c hc => by cases hc⟩
      rcases hhush.cancelled job hjob ht with hmem | hdead
      · cases hmem
      · exact hdead

theorem BridgeInv.output {b : TtsBridge ρ} {q q' : PlaybackQueue} {m m' : Moments}
    (hi : BridgeInv b q m) (hqueue : ∀ c ∈ q'.chunks, c ∈ q.chunks)
    (hnote : m'.interrupted = m.interrupted) : BridgeInv b q' m' := by
  refine ⟨hi.inFlight, hi.hushing, fun moment hm => ?_⟩
  exact (hi.quiet moment (hnote ▸ hm)).mono (fun job hjob => .inl hjob) rfl (fun _ h => h) hqueue

/-! ## The callback after the moment -/

/-- The turn that the callback has read. -/
def readTurn : RenderPc → Option TurnId
  | .gate _ _ turn => some turn
  | .pop _ _ turn => some turn
  | _ => none

/-- The callback has frames still to fill. -/
def Filling : RenderPc → Prop
  | .idle => False
  | .loop frames out => out.length < frames
  | .gate _ _ _ => True
  | .pop _ _ _ => True

structure AudioInv (o : AudioOutput) (m : Moments) : Prop where
  active : ∀ moment ∈ m.movedOff, o.activeTurn ≠ moment.turn
  read : ∀ moment ∈ m.movedOff, readTurn o.engine.pc = some moment.turn →
    o.engine.calls ≤ moment.call
  current : ∀ moment ∈ m.all, Filling o.engine.pc → moment.call < o.engine.calls →
    o.engine.current.turn = moment.turn → o.engine.leftover = []
  calls : ∀ w ∈ o.engine.written, w.call ≤ o.engine.calls
  silent : ∀ moment ∈ m.all, ∀ w ∈ o.engine.written, w.turn = moment.turn → w.call ≤ moment.call

/-- The queue holds no audio of an interrupted turn. -/
def Muted (q : PlaybackQueue) (m : Moments) : Prop :=
  ∀ moment ∈ m.interrupted, ∀ c ∈ q.chunks, c.turn = moment.turn → c.samples = []

theorem dequeueActive_subset {q q' : PlaybackQueue} {t : TurnId} {found : Option AudioChunk}
    (h : q.dequeueActive t = (found, q')) :
    (∀ c ∈ q'.chunks, c ∈ q.chunks) ∧
      ∀ chunk, found = some chunk → chunk.turn = t ∧ chunk ∈ q.chunks := by
  cases found with
  | none =>
      rw [(PlaybackQueue.dequeueActive_eq_none h).2]
      exact ⟨by simp, by simp⟩
  | some chunk =>
      obtain ⟨hturn, -, stale, hchunks⟩ := PlaybackQueue.dequeueActive_eq_some h
      rw [hchunks]
      refine ⟨fun c hc => ?_, fun c hc => ?_⟩
      · exact List.mem_append_right _ (List.mem_cons_of_mem _ hc)
      · cases hc
        exact ⟨hturn, List.mem_append_right _ List.mem_cons_self⟩

theorem AudioInv.audio {o o' : AudioOutput} {m : Moments} (hi : AudioInv o m)
    (hmuted : Muted o.queue m) (h : o.audio = some o') :
    AudioInv o' m ∧ ∀ c ∈ o'.queue.chunks, c ∈ o.queue.chunks := by
  obtain ⟨hactive, hread, hcurrent, hcalls, hsilent⟩ := hi
  obtain ⟨engine, queue, hcase, rfl⟩ := AudioOutput.audio_eq_some h
  have hsame : ∀ c ∈ o.queue.chunks, c ∈ o.queue.chunks := fun c hc => hc
  cases hcase with
  | finish frames out hpc hfull =>
      exact ⟨⟨hactive, by simp [readTurn, PlaybackEngine.finish],
        fun _ _ hfill => absurd hfill id, hcalls, hsilent⟩, hsame⟩
  | retire frames out hpc hroom hend =>
      have hretired := o.engine.retire_retired
      refine ⟨⟨hactive, fun moment hm hturn => ?_, fun _ _ _ _ _ => hretired.leftover hend, ?_, ?_⟩,
        hsame⟩
      · exact absurd (Option.some.inj hturn) (hactive moment hm)
      · show ∀ w ∈ o.engine.retire.written, w.call ≤ o.engine.retire.calls
        rw [hretired.written, hretired.calls]
        exact hcalls
      · show ∀ moment ∈ m.all, ∀ w ∈ o.engine.retire.written, _
        rw [hretired.written]
        exact hsilent
  | copy frames out hpc hroom hmore =>
      have hfilling : Filling o.engine.pc := by
        rw [hpc]
        exact hroom
      refine ⟨⟨hactive, by simp [readTurn, PlaybackEngine.copy], ?_, ?_, ?_⟩, hsame⟩
      · intro moment hm _ hlate hturn
        exact absurd (hcurrent moment hm hfilling hlate hturn) hmore
      · intro w hw
        rcases List.mem_append.mp hw with hw | hw
        · exact hcalls w hw
        · obtain ⟨x, -, rfl⟩ := List.mem_map.mp hw
          exact Nat.le_refl _
      · intro moment hm w hw hturn
        rcases List.mem_append.mp hw with hw | hw
        · exact hsilent moment hm w hw hturn
        · obtain ⟨x, -, rfl⟩ := List.mem_map.mp hw
          exact Nat.not_lt.mp fun hlate => hmore (hcurrent moment hm hfilling hlate hturn)
  | pass frames out turn hpc hgate =>
      rw [PlaybackEngine.prime_eq]
      refine ⟨⟨hactive, fun moment hm hturn => ?_, fun moment hm _ => ?_, hcalls, hsilent⟩, hsame⟩
      · exact hread moment hm (by rw [hpc]; exact hturn)
      · exact hcurrent moment hm (by rw [hpc]; trivial)
  | hold frames out turn hpc hgate =>
      exact ⟨⟨hactive, by simp [readTurn, PlaybackEngine.fallSilent],
        fun _ _ hfill => absurd hfill id, hcalls, hsilent⟩, hsame⟩
  | underrun frames out turn _ hpc hpop =>
      exact ⟨⟨hactive, by simp [readTurn, PlaybackEngine.fallSilent],
        fun _ _ hfill => absurd hfill id, hcalls, hsilent⟩, (dequeueActive_subset hpop).1⟩
  | take frames out turn chunk _ hpc hpop =>
      obtain ⟨hsubset, hfound⟩ := dequeueActive_subset hpop
      obtain ⟨hchunk, hmem⟩ := hfound chunk rfl
      refine ⟨⟨hactive, by simp [readTurn], fun moment hm _ hlate hturn => ?_, hcalls, hsilent⟩,
        hsubset⟩
      show chunk.samples.drop 0 = []
      rcases List.mem_append.mp hm with hm | hm
      · rw [hmuted moment hm chunk hmem hturn]
        rfl
      · have hturn : readTurn o.engine.pc = some moment.turn := by
          rw [hpc, ← hturn, hchunk]
          rfl
        exact absurd (hread moment hm hturn) (Nat.not_le.mpr hlate)

theorem AudioInv.queue {o : AudioOutput} {m : Moments} (hi : AudioInv o m) (q : PlaybackQueue) :
    AudioInv { o with queue := q } m :=
  ⟨hi.active, hi.read, hi.current, hi.calls, hi.silent⟩

/-- A moment that is now asks nothing of the callbacks so far. -/
theorem AudioInv.note {o : AudioOutput} {m m' : Moments} (hi : AudioInv o m)
    (hmoved : m'.movedOff = m.movedOff)
    (hall : ∀ moment ∈ m'.all, moment ∈ m.all ∨ moment.call = o.engine.calls) :
    AudioInv o m' := by
  refine ⟨hmoved ▸ hi.active, hmoved ▸ hi.read, fun moment hm hfill hlate => ?_, hi.calls,
    fun moment hm w hw hturn => ?_⟩
  · rcases hall moment hm with hm | hnow
    · exact hi.current moment hm hfill hlate
    · exact absurd hlate (Nat.not_lt.mpr (Nat.le_of_eq hnow.symm))
  · rcases hall moment hm with hm | hnow
    · exact hi.silent moment hm w hw hturn
    · exact hnow ▸ hi.calls w hw

theorem AudioInv.render {o : AudioOutput} {m : Moments} {frames : Nat} (hi : AudioInv o m)
    (hok : 0 < frames → o.engine.leftover ≠ [] → o.engine.current.turn ∉ m.all.map (·.turn)) :
    AudioInv { o with engine := o.engine.begin frames } m := by
  refine ⟨hi.active, by simp [readTurn, PlaybackEngine.begin], fun moment hm hfill _ hturn => ?_,
    fun w hw => Nat.le_succ_of_le (hi.calls w hw), hi.silent⟩
  by_contra hmore
  exact hok hfill hmore (List.mem_map.mpr ⟨moment, hm, hturn.symm⟩)

theorem AudioInv.setActive {s : TtsStack ρ} {m : Moments} {turn : TurnId}
    (hi : AudioInv s.output m) (hok : turn ∉ m.movedOff.map (·.turn)) :
    AudioInv { s.output with activeTurn := turn }
      (noteMoment m s (.output (.setActive turn))) := by
  simp only [noteMoment]
  split
  next hsame =>
    subst hsame
    exact hi
  next hmoves =>
    have hnow : ∀ moment ∈ [(⟨s.output.activeTurn, s.output.engine.calls⟩ : Moment)],
        moment.turn = s.output.activeTurn ∧ moment.call = s.output.engine.calls := by simp
    refine ⟨fun moment hm => ?_, fun moment hm hturn => ?_, fun moment hm hfill hlate => ?_,
      hi.calls, fun moment hm w hw hturn => ?_⟩
    · rcases List.mem_append.mp hm with hm | hm
      · intro heq
        exact hok (List.mem_map.mpr ⟨moment, hm, heq.symm⟩)
      · rw [(hnow moment hm).1]
        exact hmoves
    · rcases List.mem_append.mp hm with hm | hm
      · exact hi.read moment hm hturn
      · exact Nat.le_of_eq (hnow moment hm).2.symm
    · rw [Moments.all, ← List.append_assoc] at hm
      rcases List.mem_append.mp hm with hm | hm
      · exact hi.current moment hm hfill hlate
      · exact absurd hlate (Nat.not_lt.mpr (Nat.le_of_eq (hnow moment hm).2.symm))
    · rw [Moments.all, ← List.append_assoc] at hm
      rcases List.mem_append.mp hm with hm | hm
      · exact hi.silent moment hm w hw hturn
      · exact (hnow moment hm).2 ▸ hi.calls w hw

/-! ## Runs -/

structure SilenceInv (w : TtsStack ρ × Moments) : Prop where
  bridge : BridgeInv w.1.bridge w.1.output.queue w.2
  audio : AudioInv w.1.output w.2

theorem BridgeInv.muted {b : TtsBridge ρ} {q : PlaybackQueue} {m : Moments}
    (hi : BridgeInv b q m) : Muted q m :=
  fun moment hm c hc ht => (hi.quiet moment hm).queue c hc ht

theorem SilenceInv.handler {s : TtsStack ρ} {m : Moments} {b' : TtsBridge ρ} {q' : PlaybackQueue}
    (hi : SilenceInv (s, m)) (hok : Hushes (s, m) .handler)
    (h : s.bridge.handlerStep s.output.queue = some (b', q')) :
    SilenceInv (s.onQueue (b', q'), noteMoment m s .handler) := by
  refine ⟨hi.bridge.handler hok h, (hi.audio.queue q').note ?_ ?_⟩
  · simp only [noteMoment]
    split <;> rfl
  · intro moment hm
    simp only [noteMoment] at hm
    split at hm
    · rcases List.mem_append.mp hm with hm | hm
      · rcases List.mem_append.mp hm with hm | hm
        · exact .inl (List.mem_append_left _ hm)
        · rw [List.mem_singleton.mp hm]
          exact .inr rfl
      · exact .inl (List.mem_append_right _ hm)
    · exact .inl hm

theorem SilenceInv.output {s : TtsStack ρ} {m : Moments} {a : OutputAction} {o' : AudioOutput}
    (hi : SilenceInv (s, m)) (hok : Hushes (s, m) (.output a))
    (hown : ∀ chunk, a ≠ .enqueue chunk) (h : s.output.step a = some o') :
    SilenceInv ({ s with output := o' }, noteMoment m s (.output a)) := by
  have hsame : ∀ c ∈ s.output.queue.chunks, c ∈ s.output.queue.chunks := fun c hc => hc
  cases a with
  | render frames =>
      simp only [AudioOutput.step] at h
      split at h
      · cases h
        exact ⟨hi.bridge, hi.audio.render hok⟩
      · cases h
  | audio =>
      obtain ⟨haudio, hsubset⟩ := hi.audio.audio hi.bridge.muted h
      exact ⟨hi.bridge.output hsubset rfl, haudio⟩
  | enqueue chunk => exact absurd rfl (hown chunk)
  | invalidateBefore next =>
      cases h
      refine ⟨hi.bridge.output (fun c hc => ?_) rfl, hi.audio.queue _⟩
      exact List.mem_of_mem_filter hc
  | clear =>
      cases h
      exact ⟨hi.bridge.output (fun c hc => by cases hc) rfl, hi.audio.queue _⟩
  | setActive turn =>
      cases h
      refine ⟨hi.bridge.output hsame ?_, hi.audio.setActive hok⟩
      simp only [noteMoment]
      split <;> rfl
  | relay =>
      cases h
      exact ⟨hi.bridge.output hsame rfl, hi.audio.active, hi.audio.read, hi.audio.current,
        hi.audio.calls, hi.audio.silent⟩

theorem SilenceInv.step {soxr : Soxr ρ} {w w' : TtsStack ρ × Moments} {a : TtsAction}
    (hi : SilenceInv w) (hok : Hushes w a)
    (h : watch (step soxr) noteMoment w a = some w') : SilenceInv w' := by
  obtain ⟨s, m⟩ := w
  obtain ⟨s', m'⟩ := w'
  obtain ⟨hs, hnote⟩ := watch_eq_some.mp h
  simp only at hs hnote
  subst hnote
  cases a with
  | event e =>
      obtain ⟨b', hb, rfl⟩ := Option.map_eq_some_iff.mp hs
      exact ⟨hi.bridge.event hok hb, hi.audio⟩
  | handler =>
      obtain ⟨⟨b', q'⟩, hb, rfl⟩ := Option.map_eq_some_iff.mp hs
      exact hi.handler hok hb
  | io =>
      obtain ⟨⟨b', q'⟩, hb, rfl⟩ := Option.map_eq_some_iff.mp hs
      have hcase := TtsBridge.ioStep_eq_some hb
      exact ⟨hi.bridge.hand hcase.hand hcase.frame.1 hcase.frame.2, hi.audio.queue q'⟩
  | submit e =>
      obtain ⟨b', hb, rfl⟩ := Option.map_eq_some_iff.mp hs
      obtain ⟨hhand, hpool, hhandler⟩ :=
        TtsBridge.onSubmit_hand (q := s.output.queue) hb
      exact ⟨hi.bridge.hand hhand hpool hhandler, hi.audio⟩
  | unsubscribe =>
      obtain ⟨b', hb, rfl⟩ := Option.map_eq_some_iff.mp hs
      obtain ⟨-, rfl⟩ := TtsBridge.unsubscribe_eq_some hb
      refine ⟨hi.bridge.mono ⟨rfl, rfl, fun _ h => h⟩ (fun _ _ job hjob => .inl hjob) ?_
        fun c hc => hc, hi.audio⟩
      intro t toCancel ht
      exact ⟨(hi.bridge.hushing t toCancel ht).pending, (hi.bridge.hushing t toCancel ht).cancelled⟩
  | stop =>
      obtain ⟨b', hb, rfl⟩ := Option.map_eq_some_iff.mp hs
      obtain ⟨hleaves, hpending, hhandler⟩ := TtsBridge.stop_leavesIo hb
      refine ⟨hi.bridge.mono hleaves (fun _ _ job hjob => .inl (hpending ▸ hjob)) ?_ fun c hc => hc,
        hi.audio⟩
      intro t toCancel ht
      have hhush := hi.bridge.hushing t toCancel (hhandler ▸ ht)
      refine ⟨hpending ▸ hhush.pending, fun job hjob hturn => ?_⟩
      exact (hhush.cancelled job (hleaves.io ▸ hjob) hturn).imp id (hleaves.pool _)
  | output a =>
      obtain ⟨hown, o', ho, rfl⟩ := step_output_eq_some hs
      exact hi.output hok hown ho

theorem initial_silenceInv (deviceRate maxQueueChunks prefillTargetSamples : Nat) :
    SilenceInv ((initial deviceRate maxQueueChunks prefillTargetSamples : TtsStack ρ), {}) := by
  refine ⟨⟨?_, ?_, ?_⟩, ?_, ?_, ?_, ?_, ?_⟩
  · intro job hjob
    cases hjob
  · intro t toCancel ht
    cases ht
  all_goals simp [initial, Moments.all]

/-- A turn falls silent with its interruption, and with the active turn's move off it, in
every run whose steps keep to the condition. -/
theorem run_silent {soxr : Soxr ρ} {deviceRate maxQueueChunks prefillTargetSamples : Nat}
    {acts : List TtsAction} {s : TtsStack ρ} {m : Moments}
    (hrun : run (watch (step soxr) noteMoment)
      (initial deviceRate maxQueueChunks prefillTargetSamples, {}) acts = some (s, m))
    (hok : Always (watch (step soxr) noteMoment) Hushes
      (initial deviceRate maxQueueChunks prefillTargetSamples, {}) acts) : s.Silent m :=
  (run_invariant (fun _ _ _ hi hok hs => hi.step hok hs) hrun hok
    (initial_silenceInv deviceRate maxQueueChunks prefillTargetSamples)).audio.silent

/-- A resampler that changes nothing. -/
def passThrough : Soxr Unit where
  create _ _ := ()
  process samples r := (samples, r)
  flush _ := some []

/-- A reply of one chunk, a callback for two frames, and behind the interruption another one that
returns after so many steps. -/
def interruptedReply (samples : List Sample) (steps : Nat) : List TtsAction :=
  [.event (.llmStarted { turn := 1 }), .output (.setActive 1),
    .event (.llmSentence { turn := 1, text := ascii "First." }), .io, .io, .io,
    .submit (.onFormat 24000), .submit (.onAudio samples), .io,
    .output (.render 2), .output .audio, .output .audio, .output .audio, .output .audio,
    .output .audio,
    .event (.userInterrupted { turn := 1 }), .handler, .handler, .handler,
    .output (.render 2)] ++ List.replicate steps (.output .audio)

theorem run_silent_interruptedReply :
    ∃ s m, run (watch (step passThrough) noteMoment) (initial 24000 0 0, {})
        (interruptedReply [5, 6] 3) = some (s, m) ∧
      m.interrupted = [{ turn := 1, call := 1 }] ∧
      s.output.engine.emitted = [[5, 6], [0, 0]] ∧ s.Silent m := by
  obtain ⟨w, hw, hm, hemitted⟩ : ∃ w, run (watch (step passThrough) noteMoment)
        (initial 24000 0 0, {}) (interruptedReply [5, 6] 3) = some w ∧
      w.2.interrupted = [{ turn := 1, call := 1 }] ∧
      w.1.output.engine.emitted = [[5, 6], [0, 0]] := by
    refine ⟨(run (watch (step passThrough) noteMoment) (initial 24000 0 0, {})
      (interruptedReply [5, 6] 3)).get (by decide), ?_, by decide, by decide⟩
    exact (Option.some_get _).symm
  exact ⟨w.1, w.2, hw, hm, hemitted, run_silent hw (by decide)⟩

/-- The callback after the interruption goes on with the chunk that the engine holds. -/
theorem heldChunk_not_silent :
    ∃ s m, run (watch (step passThrough) noteMoment) (initial 24000 0 0, {})
        (interruptedReply [5, 6, 7, 8] 2) = some (s, m) ∧
      m.interrupted = [{ turn := 1, call := 1 }] ∧
      { call := 2, turn := 1, sample := 7 } ∈ s.output.engine.written ∧ ¬ s.Silent m := by
  obtain ⟨w, hw, hm, hlate⟩ : ∃ w, run (watch (step passThrough) noteMoment)
        (initial 24000 0 0, {}) (interruptedReply [5, 6, 7, 8] 2) = some w ∧
      w.2.interrupted = [{ turn := 1, call := 1 }] ∧
      { call := 2, turn := 1, sample := 7 } ∈ w.1.output.engine.written := by
    refine ⟨(run (watch (step passThrough) noteMoment) (initial 24000 0 0, {})
      (interruptedReply [5, 6, 7, 8] 2)).get (by decide), ?_, by decide, by decide⟩
    exact (Option.some_get _).symm
  refine ⟨w.1, w.2, hw, hm, hlate, fun hsilent => ?_⟩
  have hcall := hsilent { turn := 1, call := 1 }
    (List.mem_append_left _ (by rw [hm]; exact List.mem_cons_self)) _ hlate rfl
  exact absurd hcall (by decide)

end TtsStack

end Acva.Orchestrator

import Acva.Dialogue.Manager.Submission
import Acva.Dialogue.TtsBridge.Ownership
import Acva.Orchestrator.BargeInStack

/-! # An interruption hits its own turn

What is done on a `UserInterrupted` that names a turn is not to reach another turn:
not the machine's turn, not the manager's stream, and neither the request in flight
nor the queued chunks of a turn that became active later. The machine never looks
at the turn it is told, and the bridge cancels what is in flight and clears the
queue whatever turn they are of; so each of them has to find nothing of another
turn. The manager looks, and the machine's cascade tells it the machine's turn.
-/

namespace Acva.Orchestrator

open Acva.Audio Acva.Dialogue Acva.Playback Acva.Runs

/-! ## The order in which turns become active -/

/-- A turn that was not active yet comes last. -/
def ActiveBefore (activated : List TurnId) (t t' : TurnId) : Prop :=
  activated.idxOf t < activated.idxOf t'

instance (activated : List TurnId) (t t' : TurnId) : Decidable (ActiveBefore activated t t') :=
  inferInstanceAs (Decidable (_ < _))

/-- `t'` became active after `t`. -/
def BecameActiveAfter (activated : List TurnId) (t t' : TurnId) : Prop :=
  t' ∈ activated ∧ ActiveBefore activated t t'

instance (activated : List TurnId) (t t' : TurnId) :
    Decidable (BecameActiveAfter activated t t') :=
  inferInstanceAs (Decidable (_ ∧ _))

section
variable {activated : List TurnId} {t t' : TurnId}

theorem ActiveBefore.append (h : ActiveBefore activated t t') (later : List TurnId) :
    ActiveBefore (activated ++ later) t t' := by
  have hmem : t ∈ activated :=
    List.idxOf_lt_length_iff.mp (Nat.lt_of_lt_of_le h List.idxOf_le_length)
  unfold ActiveBefore
  rw [List.idxOf_append_of_mem hmem]
  by_cases hmem' : t' ∈ activated
  · rw [List.idxOf_append_of_mem hmem']
    exact h
  · rw [List.idxOf_append_of_notMem hmem']
    have hlt := List.idxOf_lt_length_iff.mpr hmem
    omega

theorem BecameActiveAfter.ne (h : BecameActiveAfter activated t t') : t' ≠ t := by
  rintro rfl
  exact Nat.lt_irrefl _ h.2

theorem BecameActiveAfter.not_before (h : BecameActiveAfter activated t t') :
    ¬ ActiveBefore activated t' t :=
  Nat.lt_asymm h.2

end

/-! ## What an interruption reaches -/

structure InterruptNotes where
  /-- The turns in the order in which they became active, in the machine or in the manager. -/
  activated : List TurnId := []
  /-- The turn of the job that the bridge took last. -/
  taken : TurnId := kNoTurn
  /-- An interruption has hit a turn other than its own. -/
  strayed : Bool := false
deriving DecidableEq, Repr

namespace BargeInStack

variable {ρ : Type}

/-- The interruption that an action handles or goes on handling, by its turn. -/
def interruptionOf (s : BargeInStack ρ) : BargeInAction → Option TurnId
  | .fsmTakes _ m => m.interruption
  | .managerTakes _ _ m => m.interruption
  | .bridgeTakes m => m.interruption
  | .tts .handler =>
      match s.bridge.handler with
      | .cancelling turn _ => some turn
      | .idle => none
  | _ => none

/-- A turn of the machine is over. -/
def EndsOther (t : TurnId) (s s' : BargeInStack ρ) : Prop :=
  s.fsm.active.id ≠ t ∧ s'.fsm.outcomeCalls ≠ s.fsm.outcomeCalls

def CancelsOtherStream (t : TurnId) (s s' : BargeInStack ρ) : Prop :=
  s.manager.active.id ≠ t ∧ s.manager.tokenCancelled = false ∧ s'.manager.tokenCancelled = true

def CancelsLaterRequest (activated : List TurnId) (t : TurnId) (s s' : BargeInStack ρ) : Prop :=
  ∃ job ∈ s.bridge.io.job, BecameActiveAfter activated t job.sentence.turn ∧
    s.bridge.pool.isCancelled job.cancel = false ∧ s'.bridge.pool.isCancelled job.cancel = true

def RemovesLaterChunk (activated : List TurnId) (t : TurnId) (s s' : BargeInStack ρ) : Prop :=
  ∃ c ∈ s.queue.chunks, BecameActiveAfter activated t c.turn ∧ c ∉ s'.queue.chunks

/-- The step from `s` to `s'`, on an interruption of turn `t`, hits another turn. -/
def Strays (activated : List TurnId) (t : TurnId) (s s' : BargeInStack ρ) : Prop :=
  EndsOther t s s' ∨ CancelsOtherStream t s s' ∨ CancelsLaterRequest activated t s s' ∨
    RemovesLaterChunk activated t s s'

instance (activated : List TurnId) (t : TurnId) (s s' : BargeInStack ρ) :
    Decidable (Strays activated t s s') := by
  unfold Strays EndsOther CancelsOtherStream CancelsLaterRequest RemovesLaterChunk
  infer_instance

def activates (s s' : BargeInStack ρ) : List TurnId :=
  (if s'.fsm.active.id = s.fsm.active.id then [] else [s'.fsm.active.id]) ++
    if s'.manager.active.id = s.manager.active.id ∨ s'.manager.active.id = kNoTurn then []
    else [s'.manager.active.id]

def takenAfter (taken : TurnId) (s : BargeInStack ρ) : BargeInAction → TurnId
  | .tts .io => nextTaken taken s.bridge
  | _ => taken

def noteStray (soxr : Soxr ρ) (l : InterruptNotes) (s : BargeInStack ρ) (a : BargeInAction) :
    InterruptNotes :=
  match s.step soxr a with
  | some s' =>
      { activated := l.activated ++ activates s s'
        taken := takenAfter l.taken s a
        strayed := l.strayed || (interruptionOf s a).any fun t =>
          decide (t ≠ kNoTurn ∧ Strays l.activated t s s') }
  | none => l

/-- If the clear is next, no chunk of a later turn is queued. -/
def NothingLaterQueued (activated : List TurnId) (q : PlaybackQueue) : HandlerPc → Prop
  | .cancelling turn [] =>
      turn ≠ kNoTurn → ∀ c ∈ q.chunks, ¬ BecameActiveAfter activated turn c.turn
  | _ => True

/-- The condition on one step: the machine rests or is in the interrupted turn; what is in
flight when the bridge takes the interruption is of the turn or of an earlier one; and the
clear finds nothing of a later one. -/
def FindsOwnTurn (w : BargeInStack ρ × InterruptNotes) : BargeInAction → Prop
  | .fsmTakes _ m => ∀ t ∈ interruptedTurn m.event, t ≠ kNoTurn →
      (w.1.fsm.state = .listening ∨ w.1.fsm.state = .idle) ∨ w.1.fsm.active.id = t
  | .bridgeTakes m => ∀ t ∈ interruptedTurn m.event, t ≠ kNoTurn →
      w.1.bridge.inFlight = none ∨ w.2.taken = t ∨ ActiveBefore w.2.activated w.2.taken t
  | .tts .handler => NothingLaterQueued w.2.activated w.1.queue w.1.bridge.handler
  | _ => True

instance (activated : List TurnId) (q : PlaybackQueue) :
    ∀ pc, Decidable (NothingLaterQueued activated q pc)
  | .cancelling turn [] => inferInstanceAs (Decidable
      (turn ≠ kNoTurn → ∀ c ∈ q.chunks, ¬ BecameActiveAfter activated turn c.turn))
  | .cancelling _ (_ :: _) => isTrue trivial
  | .idle => isTrue trivial

instance (w : BargeInStack ρ × InterruptNotes) (a : BargeInAction) :
    Decidable (FindsOwnTurn w a) := by
  unfold FindsOwnTurn
  split <;> infer_instance

/-! ## What the notes say of the cascade and of the tokens -/

/-- What the bridge is about to cancel for turn `t` is held for no later turn. -/
def CancelsOwn (activated : List TurnId) (taken : TurnId) (b : TtsBridge ρ) : Prop :=
  ∀ t toCancel, b.handler = .cancelling t toCancel → t ≠ kNoTurn → ∀ tok ∈ toCancel, ∀ t',
    Holds taken b tok t' → t' = t ∨ ActiveBefore activated t' t

structure BridgeOwn (activated : List TurnId) (taken : TurnId) (b : TtsBridge ρ) : Prop where
  apart : TokensApart taken b
  cancels : CancelsOwn activated taken b

structure OwnTurnInv (s : BargeInStack ρ) (l : InterruptNotes) : Prop where
  /-- On an interruption the machine asks for the end of the interrupted turn only. -/
  cascade : ∀ m ∈ s.bus, ∀ t, m.cause = some t → t ≠ kNoTurn →
    m.event = .cancelGeneration { turn := t }
  bridge : BridgeOwn l.activated l.taken s.bridge

variable {s s' : BargeInStack ρ} {l : InterruptNotes}

/-- A message that is handled for an interruption is the interruption, or asks for its end. -/
theorem OwnTurnInv.interruption (hi : OwnTurnInv s l) {m : Message} (hmem : m ∈ s.bus)
    {t : TurnId} (h : m.interruption = some t) (ht : t ≠ kNoTurn) :
    interruptedTurn m.event = some t ∨ m.event = .cancelGeneration { turn := t } := by
  unfold Message.interruption at h
  cases hone : interruptedTurn m.event with
  | none =>
      rw [hone] at h
      exact .inr (hi.cascade m hmem t h ht)
  | some t' =>
      rw [hone] at h
      exact .inl h

theorem interruptedTurn_eq_some {e : Event} {t : TurnId} (h : interruptedTurn e = some t) :
    ∃ i, e = .userInterrupted i ∧ i.turn = t := by
  cases e with
  | userInterrupted i => exact ⟨i, rfl, Option.some.inj h⟩
  | _ => cases h

/-! ## The machine -/

/-- What the machine does with a message that is handled for an interruption. -/
theorem fsm_interruption (hi : OwnTurnInv s l) {now : TimePoint} {m : Message}
    (hmem : m ∈ s.bus) (hok : FindsOwnTurn (s, l) (.fsmTakes now m)) {t : TurnId}
    (h : m.interruption = some t) (ht : t ≠ kNoTurn) :
    s.dialogue.host.onEvent now m.event = s.dialogue.host ∨
      s.fsm.active.id = t ∧ (s.dialogue.host.onEvent now m.event).fsm.published =
        s.fsm.published ++ [.cancelGeneration { turn := t }] := by
  rcases hi.interruption hmem h ht with hone | hcascade
  · obtain ⟨i, hevent, rfl⟩ := interruptedTurn_eq_some hone
    rw [hevent]
    by_cases hrest : s.fsm.state = .listening ∨ s.fsm.state = .idle
    · exact .inl (FsmHost.onEvent_userInterrupted_of_rests now i hrest)
    · have hown : s.fsm.active.id = i.turn := (hok i.turn hone ht).resolve_left hrest
      right
      refine ⟨hown, ?_⟩
      rw [FsmHost.onEvent_userInterrupted_published now i hrest]
      exact congrArg (fun t => s.fsm.published ++ [Event.cancelGeneration { turn := t }]) hown
  · rw [hcascade]
    exact .inl rfl

/-! ## The manager -/

/-- What the manager does with a message that is handled for an interruption. -/
theorem manager_interruption (hi : OwnTurnInv s l) {now : TimePoint} {gateOpen : Bool}
    {m : Message} (hmem : m ∈ s.bus) {t : TurnId} (h : m.interruption = some t)
    (ht : t ≠ kNoTurn) : s.manager.onEvent now gateOpen m.event = s.manager.cancelActive t := by
  rcases hi.interruption hmem h ht with hone | hcascade
  · obtain ⟨i, hevent, rfl⟩ := interruptedTurn_eq_some hone
    rw [hevent]
    rfl
  · rw [hcascade]
    rfl

theorem not_cancelsOtherStream {t : TurnId} (ht : t ≠ kNoTurn)
    (h : s'.manager = s.manager.cancelActive t) : ¬ CancelsOtherStream t s s' := by
  rintro ⟨hother, hlive, hdead⟩
  have hmiss : ¬ s.manager.hitBy t = true := by
    simp [Manager.hitBy, ht, Ne.symm hother]
  rw [h, Manager.cancelActive_eq, if_neg hmiss, hlive] at hdead
  cases hdead

/-! ## The bridge -/

section
variable {activated : List TurnId} {taken taken' : TurnId} {b b' : TtsBridge ρ}

theorem BridgeOwn.append (h : BridgeOwn activated taken b) (later : List TurnId) :
    BridgeOwn (activated ++ later) taken b := by
  refine ⟨h.apart, fun t toCancel hpc ht tok hmem t' hheld => ?_⟩
  rcases h.cancels t toCancel hpc ht tok hmem t' hheld with hown | hbefore
  · exact .inl hown
  · exact .inr (hbefore.append later)

theorem BridgeOwn.mono (h : BridgeOwn activated taken b)
    (hholds : ∀ tok t, Holds taken' b' tok t → Holds taken b tok t)
    (hpool : b'.pool.next = b.pool.next)
    (hhandler : ∀ t toCancel', b'.handler = .cancelling t toCancel' →
      ∃ toCancel, b.handler = .cancelling t toCancel ∧ ∀ tok ∈ toCancel', tok ∈ toCancel) :
    BridgeOwn activated taken' b' := by
  refine ⟨h.apart.mono hholds hpool, fun t toCancel' hpc ht tok hmem t' hheld => ?_⟩
  obtain ⟨toCancel, hold, hsub⟩ := hhandler t toCancel' hpc
  exact h.cancels t toCancel hold ht tok (hsub tok hmem) t' (hholds tok t' hheld)

theorem BridgeOwn.same_handler {b b' : TtsBridge ρ} (h : b'.handler = b.handler) :
    ∀ t toCancel', b'.handler = .cancelling t toCancel' →
      ∃ toCancel, b.handler = .cancelling t toCancel ∧ ∀ tok ∈ toCancel', tok ∈ toCancel :=
  fun _ toCancel' hpc => ⟨toCancel', h ▸ hpc, fun _ hmem => hmem⟩

/-- The bridge takes an interruption and finds in flight what the condition allows. -/
theorem CancelsOwn.interrupts {i : UserInterrupted} (ha : TokensApart taken (b.onUserInterrupted i))
    (hok : i.turn ≠ kNoTurn →
      b.inFlight = none ∨ taken = i.turn ∨ ActiveBefore activated taken i.turn) :
    CancelsOwn activated taken (b.onUserInterrupted i) := by
  obtain ⟨toCancel, hhandler, hmem⟩ := TtsBridge.onUserInterrupted_toCancel i b
  intro t toCancel' hpc ht tok htok t' hheld
  rw [hhandler] at hpc
  cases hpc
  rcases hmem tok htok with hown | hflight
  · exact .inl (ha.oneTurn tok t' _ hheld (.mapped hown))
  · have htaken : t' = taken := ha.oneTurn tok t' taken hheld (.inFlight hflight)
    rw [TtsBridge.onUserInterrupted_inFlight] at hflight
    rw [htaken]
    rcases hok ht with hnone | hallowed
    · rw [hflight] at hnone
      cases hnone
    · exact hallowed

theorem BridgeOwn.event (h : BridgeOwn activated taken b) {e : Event}
    (hok : ∀ t ∈ interruptedTurn e, t ≠ kNoTurn →
      b.inFlight = none ∨ taken = t ∨ ActiveBefore activated taken t)
    (hb : b.onEvent e = some b') : BridgeOwn activated taken b' := by
  have hapart := TtsBridge.onEvent_tokensApart h.apart hb
  refine ⟨hapart, ?_⟩
  have hidle : b'.handler = .idle → CancelsOwn activated taken b' := by
    intro hidle t toCancel hpc
    rw [hidle] at hpc
    cases hpc
  obtain ⟨-, hcase, -⟩ := TtsBridge.onEvent_step hb
  cases hcase with
  | accepts e tok hlive hpending hhandler => exact hidle hhandler
  | passes e hpending hhandler => exact hidle hhandler
  | interrupts i toCancel hinFlight hpending hhandler =>
      have hb' : b' = b.onUserInterrupted i := by
        unfold TtsBridge.onEvent at hb
        split at hb
        · exact (Option.some.inj hb).symm
        · cases hb
      subst hb'
      exact .interrupts hapart (hok i.turn rfl)

theorem BridgeOwn.handler (h : BridgeOwn activated taken b) {q q' : PlaybackQueue}
    (hb : b.handlerStep q = some (b', q')) : BridgeOwn activated taken b' := by
  obtain ⟨turn, tok, rest, hpc, rfl, rfl⟩ | ⟨turn, hpc, rfl, rfl⟩ :=
    TtsBridge.handlerStep_eq_some hb
  · refine h.mono (fun _ _ hh => hh.moves rfl (fun _ h => h) (fun _ h => h) fun _ h => h) rfl ?_
    intro t toCancel' hcancelling
    cases hcancelling
    exact ⟨tok :: rest, hpc, fun _ hmem => List.mem_cons_of_mem _ hmem⟩
  · refine h.mono (fun _ _ hh => hh.moves rfl (fun _ h => h) (fun _ h => h) fun _ h => h) rfl ?_
    intro t toCancel' hcancelling
    cases hcancelling

theorem BridgeOwn.stop (h : BridgeOwn activated taken b) (hb : b.stop = some b') :
    BridgeOwn activated taken b' := by
  obtain ⟨-, rfl⟩ := TtsBridge.stop_eq_some hb
  refine h.mono (fun _ _ hh => hh.moves rfl (fun _ h => h) (fun _ h => h) fun _ h => h) ?_
    (same_handler rfl)
  cases b.inFlight <;> rfl

end

theorem BridgeOwn.tts {soxr : Soxr ρ} {activated : List TurnId} {taken : TurnId}
    (h : BridgeOwn activated taken s.bridge) {a : TtsAction} {t : TtsStack ρ}
    (hown : ∀ e, a ≠ .event e) (ht : s.tts.step soxr a = some t) :
    BridgeOwn activated (takenAfter taken s (.tts a)) t.bridge := by
  cases a with
  | event e => exact absurd rfl (hown e)
  | handler =>
      obtain ⟨⟨b', q'⟩, hb, rfl⟩ := Option.map_eq_some_iff.mp ht
      exact h.handler hb
  | io =>
      obtain ⟨⟨b', q'⟩, hb, rfl⟩ := Option.map_eq_some_iff.mp ht
      have hcase := TtsBridge.ioStep_eq_some hb
      exact h.mono (fun _ _ => hcase.holds) (congrArg TokenPool.next hcase.frame.1)
        (same_handler hcase.frame.2)
  | submit e =>
      obtain ⟨b', hb, rfl⟩ := Option.map_eq_some_iff.mp ht
      obtain ⟨-, hpool, hhandler⟩ := TtsBridge.onSubmit_hand (q := s.queue) hb
      exact h.mono (fun _ _ => TtsBridge.onSubmit_holds hb) (congrArg TokenPool.next hpool)
        (same_handler hhandler)
  | unsubscribe =>
      obtain ⟨b', hb, rfl⟩ := Option.map_eq_some_iff.mp ht
      obtain ⟨-, rfl⟩ := TtsBridge.unsubscribe_eq_some hb
      exact h.mono (fun _ _ hh => hh.moves rfl (fun _ h => h) (fun _ h => h) fun _ h => h) rfl
        (same_handler rfl)
  | stop =>
      obtain ⟨b', hb, rfl⟩ := Option.map_eq_some_iff.mp ht
      exact h.stop hb
  | output a =>
      obtain ⟨-, o', -, rfl⟩ := TtsStack.step_output_eq_some ht
      exact h

/-! ## No step strays -/

section
variable {activated : List TurnId} {t : TurnId}

theorem not_endsOther (h : s'.fsm = s.fsm) : ¬ EndsOther t s s' := by
  rintro ⟨-, hended⟩
  rw [h] at hended
  exact hended rfl

theorem not_cancelsOtherStream_of_same (h : s'.manager = s.manager) :
    ¬ CancelsOtherStream t s s' := by
  rintro ⟨-, hlive, hdead⟩
  rw [h, hlive] at hdead
  cases hdead

theorem not_cancelsLaterRequest (h : s'.bridge.pool = s.bridge.pool) :
    ¬ CancelsLaterRequest activated t s s' := by
  rintro ⟨job, -, -, hlive, hdead⟩
  rw [h, hlive] at hdead
  cases hdead

theorem not_removesLaterChunk (h : s'.queue = s.queue) : ¬ RemovesLaterChunk activated t s s' := by
  rintro ⟨c, hmem, -, hgone⟩
  rw [h] at hgone
  exact hgone hmem

end

theorem not_strays_fsm (hi : OwnTurnInv s l) {now : TimePoint} {m : Message} (hmem : m ∈ s.bus)
    (hok : FindsOwnTurn (s, l) (.fsmTakes now m)) {t : TurnId} (h : m.interruption = some t)
    (ht : t ≠ kNoTurn) : ¬ Strays l.activated t s (s.onDialogue m.interruption
      { s.dialogue with host := s.dialogue.host.onEvent now m.event }) := by
  rintro (hends | hstream | hrequest | hchunk)
  · rcases fsm_interruption hi hmem hok h ht with hsame | ⟨hown, -⟩
    · exact not_endsOther (congrArg FsmHost.fsm hsame) hends
    · exact hends.1 hown
  · exact not_cancelsOtherStream_of_same rfl hstream
  · exact not_cancelsLaterRequest rfl hrequest
  · exact not_removesLaterChunk rfl hchunk

theorem not_strays_manager (hi : OwnTurnInv s l) {now : TimePoint} {gateOpen : Bool} {m : Message}
    (hmem : m ∈ s.bus) {t : TurnId} (h : m.interruption = some t) (ht : t ≠ kNoTurn) :
    ¬ Strays l.activated t s (s.onDialogue m.interruption
      (s.dialogue.onManager (s.manager.onEvent now gateOpen m.event))) := by
  rintro (hends | hstream | hrequest | hchunk)
  · exact not_endsOther rfl hends
  · refine not_cancelsOtherStream ht ?_ hstream
    exact manager_interruption hi hmem h ht
  · exact not_cancelsLaterRequest rfl hrequest
  · exact not_removesLaterChunk rfl hchunk

theorem not_strays_bridge (hi : OwnTurnInv s l) {e : Event} {t : TurnId} {b' : TtsBridge ρ}
    (hb : s.bridge.onEvent e = some b') :
    ¬ Strays l.activated t s (s.onTts (s.tts.onBridge b')) := by
  rintro (hends | hstream | hrequest | hchunk)
  · exact not_endsOther rfl hends
  · exact not_cancelsOtherStream_of_same rfl hstream
  · obtain ⟨job, hjob, -, hlive, hdead⟩ := hrequest
    -- the token that the bridge makes for a turn without one is not in hand yet
    have hmade := hi.bridge.apart.made _ _ (.inHand hjob rfl)
    have hsame := TtsBridge.onEvent_isCancelled hb hmade
    rw [hlive] at hsame
    exact Bool.false_ne_true (hsame.symm.trans hdead)
  · exact not_removesLaterChunk rfl hchunk

theorem not_strays_handler (hi : OwnTurnInv s l) (hok : FindsOwnTurn (s, l) (.tts .handler))
    {t : TurnId} (hint : interruptionOf s (.tts .handler) = some t) (ht : t ≠ kNoTurn)
    {b' : TtsBridge ρ} {q' : PlaybackQueue} (hb : s.bridge.handlerStep s.queue = some (b', q')) :
    ¬ Strays l.activated t s (s.onTts (s.tts.onQueue (b', q'))) := by
  rintro (hends | hstream | hrequest | hchunk)
  · exact not_endsOther rfl hends
  · exact not_cancelsOtherStream_of_same rfl hstream
  · obtain ⟨turn, tok, rest, hpc, rfl, rfl⟩ | ⟨turn, hpc, rfl, rfl⟩ :=
      TtsBridge.handlerStep_eq_some hb
    · simp only [interruptionOf, hpc, Option.some.injEq] at hint
      subst hint
      obtain ⟨job, hjob, hafter, hlive, hdead⟩ := hrequest
      have htok : job.cancel = tok := by
        rcases TokenPool.isCancelled_cancel.mp hdead with heq | hold
        · exact heq
        · rw [hlive] at hold
          cases hold
      rcases hi.bridge.cancels turn _ hpc ht tok List.mem_cons_self _ (.inHand hjob htok) with
        hown | hbefore
      · exact hafter.ne hown
      · exact hafter.not_before hbefore
    · exact not_cancelsLaterRequest rfl hrequest
  · obtain ⟨turn, tok, rest, hpc, rfl, rfl⟩ | ⟨turn, hpc, rfl, rfl⟩ :=
      TtsBridge.handlerStep_eq_some hb
    · exact not_removesLaterChunk rfl hchunk
    · simp only [interruptionOf, hpc, Option.some.injEq] at hint
      subst hint
      obtain ⟨c, hmem, hafter, -⟩ := hchunk
      have hnone : NothingLaterQueued l.activated s.queue (.cancelling turn []) := hpc ▸ hok
      exact hnone ht c hmem hafter

theorem not_strays {soxr : Soxr ρ} {a : BargeInAction} (hi : OwnTurnInv s l)
    (hok : FindsOwnTurn (s, l) a) (h : s.step soxr a = some s') {t : TurnId}
    (hint : interruptionOf s a = some t) (ht : t ≠ kNoTurn) : ¬ Strays l.activated t s s' := by
  cases step_eq_some h with
  | fsmTakes now m hmem => exact not_strays_fsm hi hmem hok hint ht
  | managerTakes now gateOpen m hmem => exact not_strays_manager hi hmem hint ht
  | bridgeTakes m b' hmem hb => exact not_strays_bridge hi hb
  | tts a w hown hw =>
      cases a with
      | handler =>
          obtain ⟨⟨b', q'⟩, hb, rfl⟩ := Option.map_eq_some_iff.mp hw
          exact not_strays_handler hi hok hint ht hb
      | _ => cases hint
  | _ => cases hint

/-! ## Runs -/

theorem mem_onDialogue {cause : Option TurnId} {d : DialogueStack} {m : Message}
    (h : m ∈ (s.onDialogue cause d).bus) : m ∈ s.bus ∨
      m.cause = cause ∧ m.event ∈ newEvents s.fsm.published d.host.fsm.published ++
        newEvents s.manager.published d.manager.published := by
  rcases List.mem_append.mp h with hold | hnew
  · exact .inl hold
  · obtain ⟨e, he, rfl⟩ := List.mem_map.mp hnew
    exact .inr ⟨rfl, he⟩

theorem newEvents_same (es : List Event) : newEvents es es = [] := List.drop_length

theorem cascade_fsm (hi : OwnTurnInv s l) {now : TimePoint} {m : Message} (hmem : m ∈ s.bus)
    (hok : FindsOwnTurn (s, l) (.fsmTakes now m)) :
    ∀ m' ∈ (s.onDialogue m.interruption
        { s.dialogue with host := s.dialogue.host.onEvent now m.event }).bus,
      ∀ t, m'.cause = some t → t ≠ kNoTurn → m'.event = .cancelGeneration { turn := t } := by
  intro m' hmem' t hcause ht
  rcases mem_onDialogue hmem' with hold | ⟨hnew, hevent⟩
  · exact hi.cascade m' hold t hcause ht
  · have hevent : m'.event ∈ newEvents s.fsm.published
        (s.dialogue.host.onEvent now m.event).fsm.published := by
      simpa only [BargeInStack.manager, newEvents_same, List.append_nil] using hevent
    rcases fsm_interruption hi hmem hok (hnew.symm.trans hcause) ht with hsame | ⟨-, hpublished⟩
    · rw [hsame, show s.dialogue.host.fsm = s.fsm from rfl, newEvents_same] at hevent
      cases hevent
    · rw [hpublished, newEvents, List.drop_left] at hevent
      exact List.mem_singleton.mp hevent

theorem cascade_manager (hi : OwnTurnInv s l) {now : TimePoint} {gateOpen : Bool} {m : Message}
    (hmem : m ∈ s.bus) :
    ∀ m' ∈ (s.onDialogue m.interruption
        (s.dialogue.onManager (s.manager.onEvent now gateOpen m.event))).bus,
      ∀ t, m'.cause = some t → t ≠ kNoTurn → m'.event = .cancelGeneration { turn := t } := by
  intro m' hmem' t hcause ht
  rcases mem_onDialogue hmem' with hold | ⟨hnew, hevent⟩
  · exact hi.cascade m' hold t hcause ht
  · have hevent : m'.event ∈ newEvents s.fsm.published s.fsm.published ++
        newEvents s.manager.published (s.manager.onEvent now gateOpen m.event).published := hevent
    rw [manager_interruption hi hmem (hnew.symm.trans hcause) ht,
      Manager.cancelActive_published, newEvents_same, newEvents_same] at hevent
    cases hevent

/-- A message of no cause. -/
theorem cascade_none (hi : OwnTurnInv s l) {m : Message}
    (h : m ∈ s.bus ∨ m.cause = none) :
    ∀ t, m.cause = some t → t ≠ kNoTurn → m.event = .cancelGeneration { turn := t } := by
  intro t hcause ht
  rcases h with hold | hnone
  · exact hi.cascade m hold t hcause ht
  · rw [hnone] at hcause
    cases hcause

theorem noteStray_of_step {soxr : Soxr ρ} {a : BargeInAction} (h : s.step soxr a = some s') :
    noteStray soxr l s a =
      { activated := l.activated ++ activates s s'
        taken := takenAfter l.taken s a
        strayed := l.strayed || (interruptionOf s a).any fun t =>
          decide (t ≠ kNoTurn ∧ Strays l.activated t s s') } := by
  simp only [noteStray, h]

theorem OwnTurnInv.step {soxr : Soxr ρ} {a : BargeInAction} (hi : OwnTurnInv s l)
    (hok : FindsOwnTurn (s, l) a) (h : s.step soxr a = some s') :
    OwnTurnInv s' (noteStray soxr l s a) := by
  rw [noteStray_of_step h]
  have hkept := hi.bridge.append (activates s s')
  cases step_eq_some h with
  | publish e =>
      refine ⟨fun m hmem => cascade_none hi ?_, hkept⟩
      exact (List.mem_append.mp hmem).imp_right fun hnew => by rw [List.mem_singleton.mp hnew]
  | fsmTakes now m hmem => exact ⟨cascade_fsm hi hmem hok, hkept⟩
  | managerTakes now gateOpen m hmem => exact ⟨cascade_manager hi hmem, hkept⟩
  | detectorTakes now apm m hmem hidle => exact ⟨hi.cascade, hkept⟩
  | detectorPublishes i hfired =>
      refine ⟨fun m hmem => cascade_none hi ?_, hkept⟩
      exact (List.mem_append.mp hmem).imp_right fun hnew => by rw [List.mem_singleton.mp hnew]
  | bridgeTakes m b' hmem hb =>
      refine ⟨fun m hmem => cascade_none hi ?_, (hi.bridge.event hok hb).append _⟩
      refine (List.mem_append.mp hmem).imp_right fun hnew => ?_
      obtain ⟨e, -, rfl⟩ := List.mem_map.mp hnew
      rfl
  | dialogue a d hown hd =>
      exact ⟨fun m hmem => cascade_none hi ((mem_onDialogue hmem).imp_right And.left), hkept⟩
  | tts a w hown hw =>
      refine ⟨fun m hmem => cascade_none hi ?_, (hi.bridge.tts hown hw).append _⟩
      refine (List.mem_append.mp hmem).imp_right fun hnew => ?_
      obtain ⟨e, -, rfl⟩ := List.mem_map.mp hnew
      rfl

theorem initial_ownTurnInv (cfg : BargeInConfig) (systemAecActive : Bool)
    (managerCfg : ManagerConfig) (deviceRate maxQueueChunks prefillTargetSamples : Nat) :
    OwnTurnInv (initial cfg systemAecActive managerCfg deviceRate maxQueueChunks
      prefillTargetSamples : BargeInStack ρ) {} := by
  constructor
  · intro m hmem
    cases hmem
  · refine ⟨tokensApart_empty deviceRate kNoTurn, fun t toCancel hpc => ?_⟩
    cases hpc

/-- An interruption hits no turn but its own, in every run whose steps keep to the condition. -/
theorem run_neverStrays {soxr : Soxr ρ} {cfg : BargeInConfig} {systemAecActive : Bool}
    {managerCfg : ManagerConfig} {deviceRate maxQueueChunks prefillTargetSamples : Nat}
    {acts : List BargeInAction}
    (hrun : run (watch (step soxr) (noteStray soxr))
      (initial cfg systemAecActive managerCfg deviceRate maxQueueChunks prefillTargetSamples, {})
      acts = some (s, l))
    (hok : Always (watch (step soxr) (noteStray soxr)) FindsOwnTurn
      (initial cfg systemAecActive managerCfg deviceRate maxQueueChunks prefillTargetSamples, {})
      acts) : l.strayed = false := by
  have hkeeps : ∀ (w : BargeInStack ρ × InterruptNotes) a w',
      OwnTurnInv w.1 w.2 ∧ w.2.strayed = false → FindsOwnTurn w a →
      watch (step soxr) (noteStray soxr) w a = some w' →
      OwnTurnInv w'.1 w'.2 ∧ w'.2.strayed = false := by
    rintro ⟨s, l⟩ a ⟨s', l'⟩ ⟨hi, hnone⟩ hfinds hstep
    obtain ⟨hs, hl'⟩ := watch_eq_some.mp hstep
    have hl' : l' = noteStray soxr l s a := hl'
    have hnone : l.strayed = false := hnone
    subst hl'
    refine ⟨OwnTurnInv.step hi hfinds hs, ?_⟩
    show (noteStray soxr l s a).strayed = false
    rw [noteStray_of_step hs]
    cases hint : interruptionOf s a with
    | none => simp [hnone]
    | some t =>
        have hnever : t ≠ kNoTurn → ¬ Strays l.activated t s s' := fun ht =>
          not_strays hi hfinds hs hint ht
        simpa [hnone] using hnever
  have hinitial := initial_ownTurnInv (ρ := ρ) cfg systemAecActive managerCfg deviceRate
    maxQueueChunks prefillTargetSamples
  exact (run_invariant hkeeps hrun hok ⟨hinitial, rfl⟩).2

/-! ## A barge-in, and one that comes after its turn -/

def speechStarted : Message := { event := .speechStarted {} }

def transcript : Message := { event := .finalTranscript { text := ascii "hello" } }

def sentence : Message :=
  { event := .llmSentence { turn := 1, text := ascii "Well.", lang := ascii "en" } }

def llmFinished : Message := { event := .llmFinished { turn := 1, tokensGenerated := 1 } }

def interrupted : Message := { event := .userInterrupted { turn := 1, ts := 1000000000 } }

/-- The machine speaks in turn 1, and its sentence is being synthesized. -/
def speaking : List BargeInAction :=
  [.dialogue (.fsmStart 0), .publish speechStarted.event, .fsmTakes 0 speechStarted,
    .publish (.speechEnded {}), .fsmTakes 0 { event := .speechEnded {} },
    .publish transcript.event, .fsmTakes 0 transcript, .managerTakes 0 true transcript,
    .dialogue .takeJob, .dialogue .askProvider, .dialogue .fixTurn, .dialogue .runHook,
    .dialogue .startStream, .bridgeTakes { event := .llmStarted { turn := 1 } },
    .dialogue (.token (ascii "Well. ")), .fsmTakes 0 sentence, .bridgeTakes sentence,
    .tts .io, .tts .io, .tts .io]

/-- The user speaks into the reply, and everyone takes the interruption. -/
def bargeIn : List BargeInAction :=
  [.publish speechStarted.event, .detectorTakes 1000000000 none speechStarted,
    .fsmTakes 1000000000 speechStarted, .detectorPublishes, .fsmTakes 1000000000 interrupted,
    .managerTakes 1000000000 true interrupted, .bridgeTakes interrupted,
    .managerTakes 1000000000 true { event := .cancelGeneration { turn := 1 }, cause := some 1 },
    .tts .handler, .tts .handler, .tts .handler]

/-- The reply is synthesized and played, and the end of its playback is on the bus. -/
def playedOut : List BargeInAction :=
  [.dialogue (.finishStream 1), .fsmTakes 0 llmFinished, .bridgeTakes llmFinished,
    .tts (.submit .returns), .tts .io, .tts .io, .tts .io, .tts .io,
    .tts (.output (.setActive 1)), .tts (.output (.render 1)), .tts (.output .audio),
    .tts (.output .audio), .tts (.output .audio), .tts (.output .audio), .tts (.output .relay)]

/-- The detector looks before the machine has taken the end, and publishes after the machine
has begun the next turn. -/
def lateBargeIn : List BargeInAction :=
  [.publish speechStarted.event, .detectorTakes 1000000000 none speechStarted,
    .fsmTakes 1000000000 { event := .playbackFinished { turn := 1 } },
    .fsmTakes 1000000000 speechStarted, .detectorPublishes, .fsmTakes 1000000000 interrupted]

def started : BargeInStack Unit := initial {} true {} 24000 0 0

theorem run_neverStrays_bargeIn : ∃ s l,
    run (watch (step Soxr.passThrough) (noteStray Soxr.passThrough)) (started, {})
        (speaking ++ bargeIn) = some (s, l) ∧
      s.fsm.outcomeCalls = ["discarded"] ∧ s.manager.tokenCancelled = true ∧
      l.strayed = false := by
  obtain ⟨⟨s, l⟩, hrun, hended, hcancelled⟩ : ∃ w,
      run (watch (step Soxr.passThrough) (noteStray Soxr.passThrough)) (started, {})
          (speaking ++ bargeIn) = some w ∧
        w.1.fsm.outcomeCalls = ["discarded"] ∧ w.1.manager.tokenCancelled = true := by
    refine ⟨(run (watch (step Soxr.passThrough) (noteStray Soxr.passThrough)) (started, {})
      (speaking ++ bargeIn)).get (by decide +kernel), ?_, by decide +kernel, by decide +kernel⟩
    exact (Option.some_get _).symm
  exact ⟨s, l, hrun, hended, hcancelled, run_neverStrays hrun (by decide +kernel)⟩

/-- The interruption of turn 1 ends turn 2. -/
theorem lateBargeIn_endsNextTurn : ∃ s l,
    run (watch (step Soxr.passThrough) (noteStray Soxr.passThrough)) (started, {})
        (speaking ++ playedOut ++ lateBargeIn) = some (s, l) ∧
      l.activated = [1, 1, 2] ∧ s.fsm.active.id = 2 ∧
      s.fsm.outcomeCalls = ["completed", "discarded"] ∧ l.strayed = true := by
  obtain ⟨⟨s, l⟩, hrun, hactivated, hid, hended, hstrayed⟩ : ∃ w,
      run (watch (step Soxr.passThrough) (noteStray Soxr.passThrough)) (started, {})
          (speaking ++ playedOut ++ lateBargeIn) = some w ∧
        w.2.activated = [1, 1, 2] ∧ w.1.fsm.active.id = 2 ∧
        w.1.fsm.outcomeCalls = ["completed", "discarded"] ∧ w.2.strayed = true := by
    refine ⟨(run (watch (step Soxr.passThrough) (noteStray Soxr.passThrough)) (started, {})
      (speaking ++ playedOut ++ lateBargeIn)).get (by decide +kernel), ?_, by decide +kernel,
      by decide +kernel, by decide +kernel, by decide +kernel⟩
    exact (Option.some_get _).symm
  exact ⟨s, l, hrun, hactivated, hid, hended, hstrayed⟩

end BargeInStack

end Acva.Orchestrator

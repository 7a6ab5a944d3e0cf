import Acva.Orchestrator.CaptureStack

/-! # Half duplex

The gate learns from the machine's observer when the assistant speaks, and `on_input` asks
it. While the machine's thread is not in the observer, a buffer is dropped exactly if the
machine is in `Speaking` or the gate was told less than the hangover ago that it has left it.
-/

namespace Acva.Orchestrator

open Acva.Audio Acva.Dialogue Acva.Runs

/-- The machine speaks, or has stopped so short a time ago that its tail is still to be
heard. -/
def Drops (hangoverMs : Int) (state : State) (left : Option Int) (asked : Int) : Prop :=
  state = .speaking ∨ ∃ t ∈ left, asked < t + hangoverMs * 1000000

/-- A call of `on_input` that has ended. It was calm if the machine's thread was at no time
of the question in the observer. -/
structure AskedCall where
  input : CaptureInput
  disposition : Disposition
  calm : Bool
  state : State
  left : Option Int
  asked : Int
deriving DecidableEq, Repr

/-- The last clock reading of the gate for a falling edge and of the question that is asked. -/
structure AskLog where
  left : Option Int := none
  asked : Int := 0
  calm : Bool := false
  calls : List AskedCall := []
deriving DecidableEq, Repr

namespace CaptureStack

variable {ρ : Type} {ext : FrontEnd ρ} {s s' : CaptureStack ρ} {log : AskLog}

/-- Nothing is left of a transition. -/
def settled (s : CaptureStack ρ) : Bool :=
  s.pending.isEmpty && decide (s.gate.setSpeaking = .outside)

/-- The machine does not call its observer for the event. -/
def keepsState (s : CaptureStack ρ) (e : Event) : Bool :=
  (s.host.onEvent s.gate.clock e).fsm.stateCalls == s.host.fsm.stateCalls

end CaptureStack

namespace AskLog

variable {ρ : Type}

def note (log : AskLog) (s : CaptureStack ρ) : CaptureStackAction → AskLog
  | .event e => { log with calm := log.calm && s.keepsState e }
  | .setSpeaking .readEnd => { log with left := some s.gate.clock }
  | .shouldDrop .loadSpeaking => { log with calm := s.settled, asked := s.gate.clock }
  | .shouldDrop .readNow => { log with asked := s.gate.clock }
  | .take =>
      { log with
        calls := log.calls ++ s.answered.toList.map fun (input, now, gateDrops) =>
          { input := input
            disposition := s.capture.dispose input gateDrops now
            calm := log.calm
            state := s.host.fsm.state
            left := log.left
            asked := log.asked } }
  | _ => log

end AskLog

/-- A calm call drops its buffer exactly if the gate is to be closed. -/
def AskedCall.Right (hangoverMs : Int) (call : AskedCall) : Prop :=
  call.calm = true →
    (call.disposition = .gated call.input.taken ↔
      Drops hangoverMs call.state call.left call.asked)

/-- With half duplex on the calm calls are right, and with half duplex off the gate drops
nothing. -/
structure GatesSpeech (halfDuplex : Bool) (hangoverMs : Int) (calls : List AskedCall) : Prop where
  on : halfDuplex = true → ∀ call ∈ calls, call.Right hangoverMs
  off : halfDuplex = false → ∀ call ∈ calls, ∀ count, call.disposition ≠ .gated count

theorem GatesSpeech.concat {halfDuplex : Bool} {hangoverMs : Int} {calls : List AskedCall}
    (h : GatesSpeech halfDuplex hangoverMs calls) {call : AskedCall}
    (hon : halfDuplex = true → call.Right hangoverMs)
    (hoff : halfDuplex = false → ∀ count, call.disposition ≠ .gated count) :
    GatesSpeech halfDuplex hangoverMs (calls ++ [call]) where
  on hmode := List.forall_mem_append.mpr
    ⟨h.on hmode, List.forall_mem_singleton.mpr (hon hmode)⟩
  off hmode := List.forall_mem_append.mpr
    ⟨h.off hmode, List.forall_mem_singleton.mpr (hoff hmode)⟩

namespace CaptureStack

variable {ρ : Type} {ext : FrontEnd ρ} {s s' : CaptureStack ρ} {log : AskLog}
  {halfDuplex : Bool} {hangoverMs : Int}

/-! ## What the gate knows -/

/-- The anchor is the last falling edge's, from the arming on. -/
def AnchorKept (g : HalfDuplexGate) (left : Option Int) : SetSpeakingPc → Prop
  | .outside =>
      (g.inHangover = true ↔ g.speaking = false ∧ left.isSome = true) ∧
        (g.speaking = false → ∀ t ∈ left, g.endedAt = t)
  | .rising => g.speaking = true
  | .falling => g.speaking = false
  | .anchoring now => g.speaking = false ∧ left = some now
  | .arming => g.speaking = false ∧ left = some g.endedAt

/-- What `should_drop_now` has found so far, where nothing has changed since. -/
def AnswerKept (g : HalfDuplexGate) (state : State) (left : Option Int) (asked : Int) :
    ShouldDropPc → Prop
  | .outside => False
  | .silent => g.speaking = false
  | .timing now endedAt =>
      g.speaking = false ∧ left.isSome = true ∧ (∀ t ∈ now, t = asked) ∧
        ∀ t ∈ endedAt, left = some t
  | .returned answer => answer = true ↔ Drops g.hangover state left asked

/-- The question that is asked has met no transition. -/
structure Calm (s : CaptureStack ρ) (log : AskLog) : Prop where
  pending : s.pending = []
  writer : s.gate.setSpeaking = .outside
  past : ∀ t ∈ log.left, t ≤ log.asked
  answer : AnswerKept s.gate.gate s.host.fsm.state log.left log.asked s.gate.shouldDrop

/-- The gate is told what the machine's observer was told, up to the calls that are to come. -/
structure Linked (halfDuplex : Bool) (hangoverMs : Int) (s : CaptureStack ρ) (log : AskLog) :
    Prop where
  mode : s.halfDuplex = halfDuplex
  hangover : s.gate.gate.hangover = hangoverMs
  told : halfDuplex = true → ∃ current, Edges current s.pending s.host.fsm.state ∧
    s.gate.gate.speaking = decide (current = .speaking)
  anchor : AnchorKept s.gate.gate log.left s.gate.setSpeaking
  past : ∀ t ∈ log.left, t ≤ s.gate.clock
  nonempty : ∀ input ∈ s.onInput.input?, input.samples.length ≠ 0
  calm : ∀ input now, s.onInput = .asking input now →
    halfDuplex = true ∧ (log.calm = true → Calm s log)
  right : GatesSpeech halfDuplex hangoverMs log.calls

theorem linked_build (halfDuplex : Bool) (hangoverMs : Int) {host : FsmHost}
    (hquiet : host.fsm.state ≠ .speaking) (clock : TimePoint) (cfg : AudioConfig)
    (pipeline : AudioPipeline ρ) :
    Linked halfDuplex hangoverMs (build halfDuplex hangoverMs host clock cfg pipeline) {} where
  mode := rfl
  hangover := rfl
  told _ := ⟨host.fsm.state, rfl, (decide_eq_false hquiet).symm⟩
  anchor := ⟨by simp [build, GateHost.new], fun _ t ht => by cases ht⟩
  past t ht := by cases ht
  nonempty input hinput := by cases hinput
  calm input now h := by cases h
  right := ⟨fun _ _ hcall => absurd hcall List.not_mem_nil,
    fun _ _ hcall => absurd hcall List.not_mem_nil⟩

/-! ## The machine -/

/-- The machine's and the gate's side are as they were. -/
structure SameGate (s s' : CaptureStack ρ) : Prop where
  mode : s'.halfDuplex = s.halfDuplex
  fsm : s'.host.fsm = s.host.fsm
  pending : s'.pending = s.pending
  gate : s'.gate = s.gate
  onInput : s'.onInput = s.onInput

theorem Calm.same (h : Calm s log) (hsame : SameGate s s') : Calm s' log where
  pending := hsame.pending.trans h.pending
  writer := by
    rw [hsame.gate]
    exact h.writer
  past := h.past
  answer := by
    rw [hsame.gate, hsame.fsm]
    exact h.answer

theorem Linked.same (hi : Linked halfDuplex hangoverMs s log) (hsame : SameGate s s') :
    Linked halfDuplex hangoverMs s' log where
  mode := hsame.mode.trans hi.mode
  hangover := by rw [hsame.gate, hi.hangover]
  told hmode := by
    rw [hsame.pending, hsame.fsm, hsame.gate]
    exact hi.told hmode
  anchor := by
    rw [hsame.gate]
    exact hi.anchor
  past := by
    rw [hsame.gate]
    exact hi.past
  nonempty := by
    rw [hsame.onInput]
    exact hi.nonempty
  calm input now h := by
    obtain ⟨hmode, hcalm⟩ := hi.calm input now (hsame.onInput ▸ h)
    exact ⟨hmode, fun hc => (hcalm hc).same hsame⟩
  right := hi.right

theorem work_sameGate (h : s.work ext = some s') : SameGate s s' := by
  cases work_worked h <;> exact ⟨rfl, rfl, rfl, rfl, rfl⟩

theorem Linked.event {e : Event} (hi : Linked halfDuplex hangoverMs s log)
    (h : s.step ext (.event e) = some s') :
    Linked halfDuplex hangoverMs s' (log.note s (.event e)) := by
  simp only [step] at h
  split at h
  case isFalse => cases h
  case isTrue hfree =>
    obtain ⟨hpending, hwriter⟩ := hfree
    obtain ⟨es, hcalls, hedges⟩ := FsmHost.told_onEvent s.host s.gate.clock e
    have hnew : (s.host.onEvent s.gate.clock e).fsm.stateCalls.drop s.host.fsm.stateCalls.length =
        es := by rw [hcalls, List.drop_left]
    rw [hnew] at h
    cases h
    refine ⟨hi.mode, hi.hangover, fun hmode => ?_, hi.anchor, hi.past, hi.nonempty,
      fun input now hpc => ?_, hi.right⟩
    · obtain ⟨current, hold, hspeaking⟩ := hi.told hmode
      rw [hpending] at hold
      refine ⟨s.host.fsm.state, ?_, hold ▸ hspeaking⟩
      simpa only [hi.mode, hmode, if_true] using hedges
    · obtain ⟨hmode, hcalm⟩ := hi.calm input now hpc
      refine ⟨hmode, fun hc => ?_⟩
      obtain ⟨hquiet, hkeeps⟩ := Bool.and_eq_true_iff.mp hc
      -- The observer is not called, and so the state is what it was.
      have hnone : es = [] := by
        have hsame := beq_iff_eq.mp hkeeps
        rw [hcalls] at hsame
        exact List.append_right_eq_self.mp hsame
      have hstate : (s.host.onEvent s.gate.clock e).fsm.state = s.host.fsm.state := by
        rw [hnone] at hedges
        exact hedges.symm
      obtain ⟨-, -, hpast, hanswer⟩ := hcalm hquiet
      exact ⟨by simp [hnone], hwriter, hpast, hstate ▸ hanswer⟩

/-- While the observer is told, or the gate is, nothing is calm. -/
theorem Linked.stir (hi : Linked halfDuplex hangoverMs s log)
    (hstirred : s.pending ≠ [] ∨ s.gate.setSpeaking ≠ .outside) {input : CaptureInput}
    {now : TimePoint} (hpc : s.onInput = .asking input now) :
    halfDuplex = true ∧ log.calm = false := by
  obtain ⟨hmode, hcalm⟩ := hi.calm input now hpc
  refine ⟨hmode, Bool.not_eq_true _ ▸ fun hc => ?_⟩
  exact hstirred.elim (· (hcalm hc).pending) (· (hcalm hc).writer)

/-- What the gate's `exchange` leads to from outside. -/
theorem AnchorKept.exchange {g g' : GateHost} {left : Option Int} {active : Bool}
    (hi : AnchorKept g.gate left g.setSpeaking) (h : g.step (.exchange active) = some g') :
    AnchorKept g'.gate left g'.setSpeaking ∧ g'.gate.speaking = active ∧
      g'.gate.hangover = g.gate.hangover ∧ g'.clock = g.clock := by
  simp only [GateHost.step] at h
  split at h
  case h_2 => cases h
  case h_1 hwriter =>
    rw [hwriter] at hi
    cases h
    refine ⟨?_, rfl, rfl, rfl⟩
    obtain ⟨harmed, hanchor⟩ := hi
    cases hold : g.gate.speaking <;> cases active
    · exact ⟨by rw [harmed, hold], fun _ => hanchor hold⟩
    · exact rfl
    · exact rfl
    · refine ⟨?_, fun hoff => by cases hoff⟩
      rw [harmed, hold]

theorem Linked.observe (hi : Linked halfDuplex hangoverMs s log) (h : s.observe = some s') :
    Linked halfDuplex hangoverMs s' log := by
  unfold CaptureStack.observe at h
  split at h
  case h_2 => cases h
  case h_1 prev next rest hpending hwriter =>
    have hstirred : s.pending ≠ [] := by
      rw [hpending]
      exact List.cons_ne_nil _ _
    have hcalm : ∀ input now, s.onInput = .asking input now →
        halfDuplex = true ∧ log.calm = false := fun input now => hi.stir (.inl hstirred)
    -- The observer's next call begins where the gate was told the machine is.
    have htold : halfDuplex = true → Edges next rest s.host.fsm.state ∧
        s.gate.gate.speaking = decide (prev = .speaking) := by
      intro hmode
      obtain ⟨current, hedges, hspeaking⟩ := hi.told hmode
      rw [hpending] at hedges
      obtain ⟨rfl, -, hrest⟩ := hedges
      exact ⟨hrest, hspeaking⟩
    dsimp only at h
    split at h
    · obtain ⟨gate, hgate, rfl⟩ := Option.map_eq_some_iff.mp h
      obtain ⟨hanchor, hspeaking, hhangover, hclock⟩ := hi.anchor.exchange hgate
      refine ⟨hi.mode, hhangover.trans hi.hangover, fun hmode => ⟨next, (htold hmode).1, hspeaking⟩,
        hanchor, hclock ▸ hi.past, hi.nonempty, fun input now hpc => ?_, hi.right⟩
      obtain ⟨hmode, hc⟩ := hcalm input now hpc
      exact ⟨hmode, fun hc' => by simp [hc] at hc'⟩
    · rename_i hsame
      cases h
      refine ⟨hi.mode, hi.hangover, fun hmode => ⟨next, (htold hmode).1, ?_⟩, hi.anchor, hi.past,
        hi.nonempty, fun input now hpc => ?_, hi.right⟩
      · exact (htold hmode).2.trans (not_ne_iff.mp hsame)
      · obtain ⟨hmode, hc⟩ := hcalm input now hpc
        exact ⟨hmode, fun hc' => by simp [hc] at hc'⟩

theorem Linked.advance {ns : Nat} (hi : Linked halfDuplex hangoverMs s log)
    (h : s.step ext (.advance ns) = some s') : Linked halfDuplex hangoverMs s' log := by
  cases h
  refine ⟨hi.mode, hi.hangover, hi.told, hi.anchor, fun t ht => ?_, hi.nonempty,
    fun input now hpc => ?_, hi.right⟩
  · exact (hi.past t ht).trans (Int.le_add_of_nonneg_right (Int.natCast_nonneg ns))
  · obtain ⟨hmode, hcalm⟩ := hi.calm input now hpc
    exact ⟨hmode, fun hc =>
      ⟨(hcalm hc).pending, (hcalm hc).writer, (hcalm hc).past, (hcalm hc).answer⟩⟩

/-- The accesses behind the exchange. -/
theorem AnchorKept.access {g g' : GateHost} {left : Option Int} {a : GateAction}
    (ha : a = .readEnd ∨ a = .storeEndedAt ∨ a = .storeInHangover)
    (hi : AnchorKept g.gate left g.setSpeaking) (h : g.step a = some g') :
    AnchorKept g'.gate (if a = .readEnd then some g.clock else left) g'.setSpeaking ∧
      g'.gate.speaking = g.gate.speaking ∧ g'.gate.hangover = g.gate.hangover ∧
      g'.clock = g.clock ∧ g.setSpeaking ≠ .outside := by
  rcases ha with rfl | rfl | rfl
  · simp only [GateHost.step] at h
    split at h
    case h_2 => cases h
    case h_1 hwriter =>
      rw [hwriter] at hi ⊢
      cases h
      exact ⟨⟨hi, rfl⟩, rfl, rfl, rfl, SetSpeakingPc.noConfusion⟩
  · simp only [GateHost.step] at h
    split at h
    case h_2 => cases h
    case h_1 anchor hwriter =>
      rw [hwriter] at hi ⊢
      cases h
      exact ⟨hi, rfl, rfl, rfl, SetSpeakingPc.noConfusion⟩
  · simp only [GateHost.step] at h
    split at h
    case h_3 => cases h
    case h_1 hwriter =>
      rw [hwriter] at hi ⊢
      cases h
      obtain ⟨hspeaking, hleft⟩ := hi
      refine ⟨⟨by simp [hspeaking, hleft], fun _ t ht => ?_⟩, rfl, rfl, rfl,
        SetSpeakingPc.noConfusion⟩
      exact Option.some.inj (hleft.symm.trans ht)
    case h_2 hwriter =>
      rw [hwriter] at hi ⊢
      cases h
      have hspeaking : g.gate.speaking = true := hi
      exact ⟨⟨by simp [hspeaking], fun hoff => by simp [hspeaking] at hoff⟩, rfl, rfl, rfl,
        SetSpeakingPc.noConfusion⟩

theorem note_setSpeaking {a : GateAction} (log : AskLog) (s : CaptureStack ρ) :
    log.note s (.setSpeaking a) =
      { log with left := if a = .readEnd then some s.gate.clock else log.left } := by
  cases a <;> rfl

theorem Linked.setSpeaking {a : GateAction} (hi : Linked halfDuplex hangoverMs s log)
    (h : s.step ext (.setSpeaking a) = some s') :
    Linked halfDuplex hangoverMs s' (log.note s (.setSpeaking a)) := by
  simp only [step] at h
  split at h
  case isFalse => cases h
  case isTrue ha =>
    obtain ⟨gate, hgate, rfl⟩ := Option.map_eq_some_iff.mp h
    obtain ⟨hanchor, hspeaking, hhangover, hclock, hstirred⟩ := hi.anchor.access ha hgate
    rw [note_setSpeaking]
    refine ⟨hi.mode, hhangover.trans hi.hangover, fun hmode => ?_, hanchor, fun t ht => ?_,
      hi.nonempty, fun input now hpc => ?_, hi.right⟩
    · obtain ⟨current, hedges, htold⟩ := hi.told hmode
      exact ⟨current, hedges, hspeaking.trans htold⟩
    · rw [hclock]
      dsimp only at ht
      split at ht
      · exact (Option.some.inj ht).ge
      · exact hi.past t ht
    · obtain ⟨hmode, hc⟩ := hi.stir (.inr hstirred) hpc
      exact ⟨hmode, fun hc' => by simp [hc] at hc'⟩

/-! ## The callback -/

theorem Linked.callback {input : CaptureInput} (hi : Linked halfDuplex hangoverMs s log)
    (h : s.step ext (.callback input) = some s') : Linked halfDuplex hangoverMs s' log := by
  simp only [step] at h
  split at h
  case isFalse => cases h
  case isTrue hfree =>
    split at h
    case isTrue => exact Option.some.inj h ▸ hi
    case isFalse hsome =>
      cases h
      refine ⟨hi.mode, hi.hangover, hi.told, hi.anchor, hi.past, fun input' hinput => ?_,
        fun input' now hpc => (by cases hpc), hi.right⟩
      exact Option.some.inj hinput ▸ hsome

/-- A difference of readings in their order is under the hangover exactly in whole
milliseconds. -/
theorem tdiv_lt_iff {now endedAt hangover : Int} (h : endedAt ≤ now) :
    (now - endedAt).tdiv 1000000 < hangover ↔ now < endedAt + hangover * 1000000 := by
  rw [Int.tdiv_eq_ediv_of_nonneg (by omega)]
  omega

theorem not_drops {state : State} (hsilent : state ≠ .speaking) (asked : Int) :
    ¬Drops hangoverMs state none asked := by
  rintro (h | ⟨t, ht, -⟩)
  · exact hsilent h
  · cases ht

theorem drops_some_iff {state : State} (hsilent : state ≠ .speaking) (t asked : Int) :
    Drops hangoverMs state (some t) asked ↔ asked < t + hangoverMs * 1000000 := by
  rw [Drops, or_iff_right hsilent]
  exact ⟨fun ⟨u, hu, h⟩ => Option.some.inj hu ▸ h, fun h => ⟨t, rfl, h⟩⟩

/-- Where both readings are there, the comparison answers; before, it keeps them. -/
theorem AnswerKept.compare {g : HalfDuplexGate} {state : State} {left now endedAt : Option Int}
    {asked : Int} (hsilent : state ≠ .speaking) (hpast : ∀ t ∈ left, t ≤ asked)
    (hi : AnswerKept g state left asked (.timing now endedAt)) :
    AnswerKept g state left asked (GateHost.compare g.hangover now endedAt) := by
  cases now with
  | none => exact hi
  | some now =>
      cases endedAt with
      | none => exact hi
      | some endedAt =>
          obtain ⟨-, -, hnow, hended⟩ := hi
          have hleft := hended endedAt rfl
          rw [hnow now rfl, hleft]
          show decide _ = true ↔ _
          rw [decide_eq_true_iff, drops_some_iff hsilent]
          exact tdiv_lt_iff (hpast endedAt hleft)

/-- What the accesses behind the first load find while nothing changes. -/
theorem AnswerKept.dropStep {g : GateHost} {state : State} {left : Option Int} {asked : Int}
    {access : DropAccess} {pc : ShouldDropPc} (haccess : access ≠ .loadSpeaking)
    (htold : g.gate.speaking = decide (state = .speaking))
    (hanchor : AnchorKept g.gate left .outside) (hpast : ∀ t ∈ left, t ≤ asked)
    (hclock : ∀ t ∈ left, t ≤ g.clock) (hi : AnswerKept g.gate state left asked g.shouldDrop)
    (h : g.dropStep access g.shouldDrop = some pc) :
    AnswerKept g.gate state left (if access = .readNow then g.clock else asked) pc := by
  obtain ⟨harmed, hended⟩ := hanchor
  have hsilent : g.gate.speaking = false → state ≠ .speaking := by
    intro hoff
    rw [htold] at hoff
    exact of_decide_eq_false hoff
  unfold GateHost.dropStep at h
  split at h
  case h_1 => exact absurd rfl haccess
  case h_2 => exact absurd rfl haccess
  case h_3 hpc =>
    rw [hpc] at hi
    cases h
    have hoff : g.gate.speaking = false := hi
    cases harm : g.gate.inHangover with
    | true => exact ⟨hoff, (harmed.mp harm).2, by simp, by simp⟩
    | false =>
        have hleft : left = none := by
          rw [← Option.not_isSome_iff_eq_none]
          intro hsome
          exact absurd (harmed.mpr ⟨hoff, hsome⟩) (by simp [harm])
        rw [hleft]
        exact iff_of_false Bool.false_ne_true (not_drops (hsilent hoff) _)
  case h_4 endedAt hpc =>
    rw [hpc] at hi
    cases h
    obtain ⟨hoff, hsome, -, hread⟩ := hi
    exact AnswerKept.compare (hsilent hoff) hclock
      ⟨hoff, hsome, fun t ht => (Option.some.inj ht).symm, hread⟩
  case h_5 now hpc =>
    rw [hpc] at hi
    cases h
    obtain ⟨hoff, hsome, hread, -⟩ := hi
    refine AnswerKept.compare (hsilent hoff) hpast ⟨hoff, hsome, hread, fun t ht => ?_⟩
    obtain ⟨last, hlast⟩ := Option.isSome_iff_exists.mp hsome
    rw [hlast, ← hended hoff last hlast]
    exact ht
  case h_6 => cases h

theorem Linked.loadSpeaking {input : CaptureInput} {now : TimePoint} {gate : GateHost}
    (hi : Linked halfDuplex hangoverMs s log) (hmode : halfDuplex = true)
    (hpc : s.onInput = .entered input now)
    (h : s.gate.step (.shouldDrop .loadSpeaking) = some gate) :
    Linked halfDuplex hangoverMs { s with gate := gate, onInput := .asking input now }
      { log with calm := s.settled, asked := s.gate.clock } := by
  obtain ⟨pc, hdrop, rfl⟩ := Option.map_eq_some_iff.mp h
  refine ⟨hi.mode, hi.hangover, hi.told, hi.anchor, hi.past, ?_, fun input' now' _ => ?_, hi.right⟩
  · have hnonempty := hi.nonempty
    rwa [hpc] at hnonempty
  · refine ⟨hmode, fun hcalm => ?_⟩
    obtain ⟨hpending, hwriter⟩ := Bool.and_eq_true_iff.mp hcalm
    rw [List.isEmpty_iff] at hpending
    refine ⟨hpending, of_decide_eq_true hwriter, hi.past, ?_⟩
    obtain ⟨current, hedges, hspeaking⟩ := hi.told hmode
    rw [hpending] at hedges
    -- Nothing is pending, and so the gate knows the machine's state.
    have hstate : current = s.host.fsm.state := hedges
    have hfound : pc = if s.gate.gate.speaking = true then .returned true else .silent := by
      unfold GateHost.dropStep at hdrop
      split at hdrop <;> simp_all
    show AnswerKept s.gate.gate s.host.fsm.state log.left s.gate.clock pc
    rw [hfound]
    split
    case isTrue hon =>
      rw [hspeaking, decide_eq_true_iff, hstate] at hon
      exact iff_of_true rfl (.inl hon)
    case isFalse hoff => exact Bool.eq_false_iff.mpr hoff

theorem Linked.ask {access : DropAccess} {input : CaptureInput} {now : TimePoint}
    {gate : GateHost} (hi : Linked halfDuplex hangoverMs s log) (haccess : access ≠ .loadSpeaking)
    (hpc : s.onInput = .asking input now)
    (h : s.gate.step (.shouldDrop access) = some gate) :
    Linked halfDuplex hangoverMs { s with gate := gate }
      { log with asked := if access = .readNow then s.gate.clock else log.asked } := by
  obtain ⟨pc, hdrop, rfl⟩ := Option.map_eq_some_iff.mp h
  refine ⟨hi.mode, hi.hangover, hi.told, hi.anchor, hi.past, hi.nonempty,
    fun input' now' _ => ?_, hi.right⟩
  obtain ⟨hmode, hcalm⟩ := hi.calm input now hpc
  refine ⟨hmode, fun hc => ?_⟩
  obtain ⟨hpending, hwriter, hpast, hanswer⟩ := hcalm hc
  obtain ⟨current, hedges, hspeaking⟩ := hi.told hmode
  rw [hpending] at hedges
  have hstate : current = s.host.fsm.state := hedges
  have hanchor := hi.anchor
  rw [hwriter] at hanchor
  refine ⟨hpending, hwriter, fun t ht => ?_, ?_⟩
  · dsimp only
    split
    · exact hi.past t ht
    · exact hpast t ht
  · have hkept := hanswer.dropStep haccess (hstate ▸ hspeaking) hanchor hpast hi.past hdrop
    exact hkept

theorem note_shouldDrop {access : DropAccess} (haccess : access ≠ .loadSpeaking) (log : AskLog)
    (s : CaptureStack ρ) : log.note s (.shouldDrop access) =
      { log with asked := if access = .readNow then s.gate.clock else log.asked } := by
  cases access with
  | loadSpeaking => exact absurd rfl haccess
  | _ => rfl

theorem Linked.shouldDrop {access : DropAccess} (hi : Linked halfDuplex hangoverMs s log)
    (h : s.step ext (.shouldDrop access) = some s') :
    Linked halfDuplex hangoverMs s' (log.note s (.shouldDrop access)) := by
  simp only [step] at h
  split at h
  case h_1 input now hpc =>
    split at h
    case isFalse => cases h
    case isTrue hmode =>
      obtain ⟨gate, hgate, rfl⟩ := Option.map_eq_some_iff.mp h
      exact hi.loadSpeaking (hi.mode.symm.trans hmode) hpc hgate
  case h_2 => cases h
  case h_3 hpc hnot =>
    obtain ⟨gate, hgate, rfl⟩ := Option.map_eq_some_iff.mp h
    rw [note_shouldDrop hnot]
    exact hi.ask hnot hpc hgate
  case h_4 => cases h

theorem dispose_gated_iff {input : CaptureInput} (hsome : input.samples.length ≠ 0)
    (gateDrops : Bool) (now : TimePoint) (e : CaptureEngine) :
    e.dispose input gateDrops now = .gated input.taken ↔ gateDrops = true := by
  rw [CaptureEngine.dispose, if_neg hsome]
  cases gateDrops with
  | true => simp
  | false =>
      rw [if_neg Bool.false_ne_true]
      split <;> simp

theorem dispose_ungated (input : CaptureInput) (now : TimePoint) (e : CaptureEngine) (count : Nat) :
    e.dispose input false now ≠ .gated count := by
  rw [CaptureEngine.dispose]
  split
  · simp
  · rw [if_neg Bool.false_ne_true]
    split <;> simp

theorem Linked.take (hi : Linked halfDuplex hangoverMs s log)
    (h : s.step ext .take = some s') : Linked halfDuplex hangoverMs s' (log.note s .take) := by
  obtain ⟨⟨input, now, gateDrops⟩, hanswer, rfl⟩ := Option.map_eq_some_iff.mp h
  have hinput := answered_input hanswer
  refine ⟨hi.mode, hi.hangover, hi.told, hi.anchor, hi.past,
    fun input' h' => (by cases h'), fun input' now' hpc => (by cases hpc), ?_⟩
  simp only [AskLog.note, hanswer, Option.toList_some, List.map_cons, List.map_nil]
  unfold answered at hanswer
  split at hanswer
  case h_1 => cases hanswer
  case h_2 =>
    split at hanswer
    case isTrue => cases hanswer
    case isFalse hmode =>
      cases hanswer
      rw [hi.mode] at hmode
      exact hi.right.concat (fun hon => absurd hon hmode) fun _ => dispose_ungated _ _ _
  case h_3 input' now' hpc =>
    split at hanswer
    case h_2 => cases hanswer
    case h_1 answer hreturned =>
      cases hanswer
      obtain ⟨hmode, hkept⟩ := hi.calm _ _ hpc
      refine hi.right.concat (fun _ hcalm => ?_) fun hoff => ?_
      · have hright := (hkept hcalm).answer
        rw [hreturned] at hright
        simp only [AnswerKept, hi.hangover] at hright
        exact (dispose_gated_iff (hi.nonempty input hinput) _ _ _).trans hright
      · rw [hmode] at hoff
        cases hoff

/-! ## Every run -/

theorem Linked.step {a : CaptureStackAction} (hi : Linked halfDuplex hangoverMs s log)
    (h : s.step ext a = some s') : Linked halfDuplex hangoverMs s' (log.note s a) := by
  cases a with
  | event e => exact hi.event h
  | mint =>
      cases h
      exact hi.same ⟨rfl, rfl, rfl, rfl, rfl⟩
  | observe => exact hi.observe h
  | advance ns => exact hi.advance h
  | setSpeaking a => exact hi.setSpeaking h
  | callback input => exact hi.callback h
  | shouldDrop access => exact hi.shouldDrop h
  | take => exact hi.take h
  | work => exact hi.same (work_sameGate h)
  | setTestProbability probability =>
      cases h
      exact hi.same ⟨rfl, rfl, rfl, rfl, rfl⟩
  | release ref =>
      cases h
      exact hi.same ⟨rfl, rfl, rfl, rfl, rfl⟩
  | stopCapture =>
      simp only [CaptureStack.step] at h
      split at h
      · cases h
        exact hi.same ⟨rfl, rfl, rfl, rfl, rfl⟩
      · cases h
  | stopPipeline =>
      simp only [CaptureStack.step] at h
      split at h
      · cases h
        exact hi.same ⟨rfl, rfl, rfl, rfl, rfl⟩
      · cases h

/-- The observer is installed while the machine does not speak. -/
theorem run_gatesSpeech {host : FsmHost} {clock : TimePoint} {cfg : AudioConfig}
    {start : AudioPipeline ρ} {as : List CaptureStackAction}
    (hquiet : host.fsm.state ≠ .speaking)
    (hrun : run (watch (step ext) AskLog.note)
      (build halfDuplex hangoverMs host clock cfg start, {}) as = some (s, log)) :
    GatesSpeech halfDuplex hangoverMs log.calls := by
  refine (run_preserves (fun w => Linked halfDuplex hangoverMs w.1 w.2) (fun w a w' hw hs => ?_)
    hrun (linked_build halfDuplex hangoverMs hquiet clock cfg start)).right
  obtain ⟨hstep, hnote⟩ := watch_eq_some.mp hs
  rw [hnote]
  exact hw.step hstep

/-- What `on_input` does with a buffer where the gate reads its clock. -/
def askedBuffer (samples : List Playback.Sample) : List CaptureStackAction :=
  [.callback (.buffer samples), .shouldDrop .loadSpeaking, .shouldDrop .loadInHangover,
    .shouldDrop .readNow, .shouldDrop .loadEndedAt, .take]

/-- A buffer comes while the reply is spoken, one in its tail and one behind. -/
def interruptedReply : List CaptureStackAction :=
  [.event (.speechStarted {}), .observe, .event (.speechEnded {}), .observe,
    .event (.finalTranscript { turn := 1 }), .observe, .event (.llmSentence { turn := 1 }),
    .observe, .setSpeaking .storeInHangover, .callback (.buffer [1]), .shouldDrop .loadSpeaking,
    .take, .event (.userInterrupted { turn := 1 }), .observe, .setSpeaking .readEnd,
    .setSpeaking .storeEndedAt, .setSpeaking .storeInHangover, .observe, .advance 199000000] ++
    askedBuffer [2] ++ [.advance 1000000] ++ askedBuffer [3]

theorem run_gatesSpeech_interrupted :
    ∃ s log, run (watch (step AudioPipeline.passThrough) AskLog.note)
      (build true 200 (FsmHost.start 0 {}) 0 ⟨1000, by decide⟩
        (AudioPipeline.create AudioPipeline.slowRate false ()), {}) interruptedReply =
          some (s, log) ∧
      log.calls.map (fun call => (call.disposition.gatedCount, call.calm)) =
        [(1, true), (1, true), (0, true)] ∧
      GatesSpeech true 200 log.calls := by
  have hends : (run (watch (step AudioPipeline.passThrough) AskLog.note)
      (build true 200 (FsmHost.start 0 {}) 0 ⟨1000, by decide⟩
        (AudioPipeline.create AudioPipeline.slowRate false ()), {}) interruptedReply).map
          (fun w => w.2.calls.map fun call => (call.disposition.gatedCount, call.calm)) =
      some [(1, true), (1, true), (0, true)] := by
    decide +kernel
  obtain ⟨⟨s, log⟩, hrun, hcalls⟩ := Option.map_eq_some_iff.mp hends
  exact ⟨s, log, hrun, hcalls, run_gatesSpeech (by decide) hrun⟩

end CaptureStack

end Acva.Orchestrator

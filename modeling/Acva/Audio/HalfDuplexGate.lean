import Acva.Core.Runs
import Mathlib.Data.List.Pairwise

/-! # The half-duplex gate

One thread tells the gate when the assistant speaks, the audio callback asks it whether to
drop. Each access of an atomic member is a step of its own, and so is each reading of the
clock. From a rising edge on until the hangover behind the next falling edge is over, a call
is to answer that samples are dropped; it does so exactly if it does not look for a hangover
between the rising edge's store and the falling edge's.
-/

namespace Acva.Audio

open Acva.Runs

/-- The hangover is in milliseconds, the clock counts nanoseconds. -/
structure HalfDuplexGate where
  hangover : Int
  speaking : Bool := false
  inHangover : Bool := false
  endedAt : Int := 0
deriving DecidableEq, Repr

/-- Where `set_speaking` stands. -/
inductive SetSpeakingPc
  | outside
  /-- A falling edge; the clock is read next. -/
  | falling
  /-- About to store `ended_at_`. -/
  | anchoring (now : Int)
  /-- About to set `in_hangover_`. -/
  | arming
  /-- A rising edge; about to clear `in_hangover_`. -/
  | rising
deriving DecidableEq, Repr

/-- Where `should_drop_now` stands. -/
inductive ShouldDropPc
  | outside
  /-- `speaking_` was not set. -/
  | silent
  /-- `in_hangover_` was set; what is read of the clock and of `ended_at_` so far. -/
  | timing (now endedAt : Option Int)
  | returned (answer : Bool)
deriving DecidableEq, Repr

inductive DropAccess
  | loadSpeaking
  | loadInHangover
  | readNow
  | loadEndedAt
deriving DecidableEq, Repr

inductive GateAction
  /-- The clock goes on, or stands. -/
  | advance (ns : Nat)
  | exchange (active : Bool)
  /-- The clock is read on a falling edge. -/
  | readEnd
  | storeEndedAt
  | storeInHangover
  | shouldDrop (access : DropAccess)
deriving DecidableEq, Repr

structure GateHost where
  gate : HalfDuplexGate
  clock : Int
  setSpeaking : SetSpeakingPc := .outside
  shouldDrop : ShouldDropPc := .outside
deriving DecidableEq, Repr

namespace GateHost

/-- The comparison, once both operands of the difference are there. -/
def compare (hangover : Int) : Option Int → Option Int → ShouldDropPc
  | some now, some endedAt => .returned (decide ((now - endedAt).tdiv 1000000 < hangover))
  | now, endedAt => .timing now endedAt

/-- The two operands may be read in either order. -/
def dropStep (s : GateHost) : DropAccess → ShouldDropPc → Option ShouldDropPc
  | .loadSpeaking, .outside | .loadSpeaking, .returned _ =>
      some (if s.gate.speaking = true then .returned true else .silent)
  | .loadInHangover, .silent =>
      some (if s.gate.inHangover = true then .timing none none else .returned false)
  | .readNow, .timing none endedAt => some (compare s.gate.hangover (some s.clock) endedAt)
  | .loadEndedAt, .timing now none => some (compare s.gate.hangover now (some s.gate.endedAt))
  | _, _ => none

def step (s : GateHost) : GateAction → Option GateHost
  | .advance ns => some { s with clock := s.clock + ns }
  | .exchange active =>
      match s.setSpeaking with
      | .outside =>
          some
            { s with
              gate := { s.gate with speaking := active }
              setSpeaking :=
                if s.gate.speaking = true ∧ active = false then .falling
                else if s.gate.speaking = false ∧ active = true then .rising
                else .outside }
      | _ => none
  | .readEnd =>
      match s.setSpeaking with
      | .falling => some { s with setSpeaking := .anchoring s.clock }
      | _ => none
  | .storeEndedAt =>
      match s.setSpeaking with
      | .anchoring now =>
          some { s with gate := { s.gate with endedAt := now }, setSpeaking := .arming }
      | _ => none
  | .storeInHangover =>
      match s.setSpeaking with
      | .arming =>
          some { s with gate := { s.gate with inHangover := true }, setSpeaking := .outside }
      | .rising =>
          some { s with gate := { s.gate with inHangover := false }, setSpeaking := .outside }
      | _ => none
  | .shouldDrop access =>
      (s.dropStep access s.shouldDrop).map fun pc => { s with shouldDrop := pc }

def new (hangover clock : Int) : GateHost where
  gate := { hangover := hangover }
  clock := clock

end GateHost

/-! ## The spans and the calls -/

/-- A rising edge opens a span. The span lasts until the hangover is over that begins at the
next falling edge, whose clock reading has the same place in `ends`. -/
def Lasts (hangover : Int) (ends : List Int) (clock : Int) (span : Nat) : Prop :=
  ∀ t ∈ ends[span]?, clock < t + hangover * 1000000

/-- One of the spans that were opened so far still lasts. -/
def InSpan (hangover : Int) (opened : Nat) (ends : List Int) (clock : Int) : Prop :=
  ∃ span < opened, Lasts hangover ends clock span

/-- A call that has returned, with the number of spans that were opened when it began. -/
structure DropCall where
  opened : Nat
  ends : List Int
  clock : Int
  answer : Bool
deriving DecidableEq, Repr

structure GateLog where
  risings : Nat := 0
  ends : List Int := []
  opened : Nat := 0
  calls : List DropCall := []
deriving DecidableEq, Repr

namespace GateLog

/-- A call within a span, which began when it was open and returns while it lasts, is
answered that samples are dropped. -/
def NoHole (hangover : Int) (log : GateLog) : Prop :=
  ∀ call ∈ log.calls, InSpan hangover call.opened call.ends call.clock → call.answer = true

def begin (access : DropAccess) (log : GateLog) : GateLog :=
  if access = .loadSpeaking then { log with opened := log.risings } else log

def noteReturn (clock : Int) (log : GateLog) : Option ShouldDropPc → GateLog
  | some (.returned answer) =>
      { log with calls := log.calls ++ [⟨log.opened, log.ends, clock, answer⟩] }
  | _ => log

def note (log : GateLog) (s : GateHost) : GateAction → GateLog
  | .exchange active =>
      if s.gate.speaking = false ∧ active = true then { log with risings := log.risings + 1 }
      else log
  | .readEnd => { log with ends := log.ends ++ [s.clock] }
  | .shouldDrop access => (log.begin access).noteReturn s.clock (s.dropStep access s.shouldDrop)
  | _ => log

end GateLog

/-- A call in a span does not load `in_hangover_` between a rising edge's store and the next
falling edge's store. -/
def LoadsInTime (p : GateHost × GateLog) : GateAction → Prop
  | .shouldDrop .loadInHangover =>
      InSpan p.1.gate.hangover p.2.opened p.2.ends p.1.clock →
        p.1.setSpeaking = .rising ∨ p.1.setSpeaking = .outside ∧ p.1.gate.speaking = false
  | _ => True

/-! ## What the places of the threads say -/

def WriterHolds (g : HalfDuplexGate) (log : GateLog) : SetSpeakingPc → Prop
  | .outside =>
      (g.inHangover = true ↔ g.speaking = false ∧ log.ends ≠ []) ∧
        log.risings = log.ends.length + if g.speaking = true then 1 else 0
  | .rising =>
      g.speaking = true ∧ (g.inHangover = true ↔ log.ends ≠ []) ∧
        log.risings = log.ends.length + 1
  | .falling => g.speaking = false ∧ g.inHangover = false ∧ log.risings = log.ends.length + 1
  | .anchoring now =>
      g.speaking = false ∧ g.inHangover = false ∧ log.risings = log.ends.length ∧
        log.ends.getLast? = some now
  | .arming =>
      g.speaking = false ∧ g.inHangover = false ∧ log.risings = log.ends.length ∧
        log.ends.getLast? = some g.endedAt

/-- A call that found `speaking_` not set has missed a rising edge if it is set now. A call
that found `in_hangover_` set reads no anchor older than the spans it began in. -/
def ReaderHolds (s : GateHost) (log : GateLog) : ShouldDropPc → Prop
  | .silent => log.opened + (if s.gate.speaking = true then 1 else 0) ≤ log.risings
  | .timing now endedAt =>
      (∀ t ∈ now, t ≤ s.clock) ∧ log.opened ≤ log.ends.length ∧
        ∀ t ∈ log.ends.take log.opened, t ≤ s.gate.endedAt ∧ ∀ anchor ∈ endedAt, t ≤ anchor
  | _ => True

structure Kept (p : GateHost × GateLog) : Prop where
  sorted : p.2.ends.Pairwise (· ≤ ·)
  past : ∀ t ∈ p.2.ends, t ≤ p.1.clock
  armed : p.1.gate.inHangover = true → p.2.ends.getLast? = some p.1.gate.endedAt
  writer : WriterHolds p.1.gate p.2 p.1.setSpeaking
  reader : ReaderHolds p.1 p.2 p.1.shouldDrop

theorem kept_new (hangover clock : Int) : Kept (GateHost.new hangover clock, {}) where
  sorted := List.Pairwise.nil
  past _ h := absurd h List.not_mem_nil
  armed h := by cases h
  writer := by
    refine ⟨⟨fun h => ?_, fun h => absurd rfl h.2⟩, rfl⟩
    cases h
  reader := trivial

variable {s s' : GateHost} {log : GateLog}

theorem le_of_getLast? {ends : List Int} (hsorted : ends.Pairwise (· ≤ ·)) {last t : Int}
    (hlast : ends.getLast? = some last) (ht : t ∈ ends) : t ≤ last := by
  obtain ⟨before, rfl⟩ := List.getLast?_eq_some_iff.mp hlast
  rcases List.mem_append.mp ht with hbefore | hself
  · exact (List.pairwise_append.mp hsorted).2.2 t hbefore last (List.mem_singleton_self last)
  · exact Int.le_of_eq (List.mem_singleton.mp hself)

/-! ## The clock and `set_speaking` -/

theorem ReaderHolds.advance {pc : ShouldDropPc} (ns : Nat) (h : ReaderHolds s log pc) :
    ReaderHolds { s with clock := s.clock + ns } log pc := by
  cases pc with
  | timing now endedAt =>
      refine ⟨fun t ht => ?_, h.2⟩
      have := h.1 t ht
      change t ≤ s.clock + ns
      omega
  | _ => exact h

theorem Kept.advance (h : Kept (s, log)) (ns : Nat) :
    Kept ({ s with clock := s.clock + ns }, log) where
  sorted := h.sorted
  past t ht := by
    have hpast : t ≤ s.clock := h.past t ht
    change t ≤ s.clock + ns
    omega
  armed := h.armed
  writer := h.writer
  reader := h.reader.advance ns

theorem Kept.exchange (h : Kept (s, log)) {active : Bool}
    (hstep : s.step (.exchange active) = some s') :
    Kept (s', log.note s (.exchange active)) := by
  obtain ⟨⟨hangover, speaking, inHangover, endedAt⟩, clock, writer, reader⟩ := s
  obtain ⟨sorted, past, armed, hwriter, hreader⟩ := h
  cases writer with
  | outside =>
      cases hstep
      obtain ⟨hflag, hcount⟩ := hwriter
      cases speaking with
      | true =>
          cases active with
          | true => exact ⟨sorted, past, armed, ⟨hflag, hcount⟩, hreader⟩
          | false =>
              have hclear : inHangover = false := by
                rw [← Bool.not_eq_true, hflag]
                exact fun hsilent => Bool.noConfusion hsilent.1
              refine ⟨sorted, past, armed, ⟨rfl, hclear, hcount⟩, ?_⟩
              cases reader with
              | silent =>
                  have hbefore : log.opened + 1 ≤ log.risings := hreader
                  exact Nat.le_of_succ_le hbefore
              | _ => exact hreader
      | false =>
          cases active with
          | false => exact ⟨sorted, past, armed, ⟨hflag, hcount⟩, hreader⟩
          | true =>
              have hset : inHangover = true ↔ log.ends ≠ [] :=
                hflag.trans (and_iff_right rfl)
              refine ⟨sorted, past, armed, ⟨rfl, hset, congrArg (· + 1) hcount⟩, ?_⟩
              cases reader with
              | silent => exact Nat.succ_le_succ hreader
              | _ => exact hreader
  | _ => cases hstep

theorem Kept.readEnd (h : Kept (s, log)) (hstep : s.step .readEnd = some s') :
    Kept (s', log.note s .readEnd) := by
  obtain ⟨g, clock, writer, reader⟩ := s
  obtain ⟨sorted, past, armed, hwriter, hreader⟩ := h
  cases writer with
  | falling =>
      cases hstep
      obtain ⟨hsilent, hclear, hcount⟩ := hwriter
      have hlength : (log.ends ++ [clock]).length = log.ends.length + 1 := List.length_append
      refine ⟨?_, ?_, ?_, ⟨hsilent, hclear, ?_, ?_⟩, ?_⟩
      · refine List.pairwise_append.mpr ⟨sorted, List.pairwise_singleton _ _, ?_⟩
        intro t ht now hnow
        rw [List.mem_singleton.mp hnow]
        exact past t ht
      · intro t ht
        rcases List.mem_append.mp ht with hold | hnow
        · exact past t hold
        · exact Int.le_of_eq (List.mem_singleton.mp hnow)
      · intro hset
        rw [hclear] at hset
        cases hset
      · exact hcount.trans hlength.symm
      · exact List.getLast?_concat
      · cases reader with
        | timing now endedAt =>
            obtain ⟨hnow, hopened, hanchor⟩ := hreader
            refine ⟨hnow, ?_, ?_⟩
            · exact (Nat.le_succ_of_le hopened).trans_eq hlength.symm
            · change ∀ t ∈ (log.ends ++ [clock]).take log.opened, _
              rw [List.take_append_of_le_length hopened]
              exact hanchor
        | _ => exact hreader
  | _ => cases hstep

theorem Kept.storeEndedAt (h : Kept (s, log)) (hstep : s.step .storeEndedAt = some s') :
    Kept (s', log.note s .storeEndedAt) := by
  obtain ⟨g, clock, writer, reader⟩ := s
  obtain ⟨sorted, past, armed, hwriter, hreader⟩ := h
  cases writer with
  | anchoring now =>
      cases hstep
      obtain ⟨hsilent, hclear, hcount, hlast⟩ := hwriter
      refine ⟨sorted, past, fun _ => hlast, ⟨hsilent, hclear, hcount, hlast⟩, ?_⟩
      cases reader with
      | timing read endedAt =>
          obtain ⟨hread, hopened, hanchor⟩ := hreader
          refine ⟨hread, hopened, fun t ht => ⟨?_, (hanchor t ht).2⟩⟩
          exact le_of_getLast? sorted hlast (List.mem_of_mem_take ht)
      | _ => exact hreader
  | _ => cases hstep

theorem Kept.storeInHangover (h : Kept (s, log)) (hstep : s.step .storeInHangover = some s') :
    Kept (s', log.note s .storeInHangover) := by
  obtain ⟨g, clock, writer, reader⟩ := s
  obtain ⟨sorted, past, armed, hwriter, hreader⟩ := h
  cases writer with
  | arming =>
      cases hstep
      obtain ⟨hsilent, hclear, hcount, hlast⟩ := hwriter
      have hends : log.ends ≠ [] := by
        intro hnil
        rw [hnil] at hlast
        cases hlast
      refine ⟨sorted, past, fun _ => hlast, ⟨iff_of_true rfl ⟨hsilent, hends⟩, ?_⟩, ?_⟩
      · change log.risings = _ + if g.speaking = true then 1 else 0
        rw [hsilent]
        exact hcount
      · cases reader <;> exact hreader
  | rising =>
      cases hstep
      obtain ⟨hspeaks, hset, hcount⟩ := hwriter
      refine ⟨sorted, past, fun hset => (by cases hset), ⟨?_, ?_⟩, ?_⟩
      · refine iff_of_false Bool.false_ne_true fun hsilent => ?_
        have : g.speaking = false := hsilent.1
        rw [hspeaks] at this
        cases this
      · change log.risings = _ + if g.speaking = true then 1 else 0
        rw [hspeaks]
        exact hcount
      · cases reader <;> exact hreader
  | _ => cases hstep

/-! ## `should_drop_now` -/

/-- A difference under the hangover is under it in whole milliseconds. -/
theorem tdiv_lt_hangover {ns hangover : Int} (hpos : 0 < hangover)
    (h : ns < hangover * 1000000) : ns.tdiv 1000000 < hangover := by
  rcases Int.le_total 0 ns with hback | hahead
  · rw [Int.tdiv_eq_ediv_of_nonneg hback]
    omega
  · have hcut := Int.tdiv_nonneg (Int.neg_nonneg_of_nonpos hahead) (by decide : (0 : Int) ≤ 1000000)
    rw [Int.neg_tdiv] at hcut
    omega

/-- Where both operands are read, the call's answer is that samples are dropped. -/
theorem compare_spec {now endedAt : Option Int} (hpast : ∀ t ∈ log.ends, t ≤ s.clock)
    (h : ReaderHolds s log (.timing now endedAt)) :
    ReaderHolds s log (GateHost.compare s.gate.hangover now endedAt) ∧
      ∀ answer, GateHost.compare s.gate.hangover now endedAt = .returned answer →
        InSpan s.gate.hangover log.opened log.ends s.clock → answer = true := by
  cases now with
  | none => exact ⟨h, fun _ hpc => by cases hpc⟩
  | some now =>
      cases endedAt with
      | none => exact ⟨h, fun _ hpc => by cases hpc⟩
      | some endedAt =>
          obtain ⟨hnow, hopened, hanchor⟩ := h
          refine ⟨trivial, ?_⟩
          rintro answer hpc ⟨span, hspan, hlasts⟩
          have hbound : span < log.ends.length := Nat.lt_of_lt_of_le hspan hopened
          have hclock := hlasts log.ends[span] (List.getElem?_eq_getElem hbound)
          have hbegun := hpast log.ends[span] (List.getElem_mem hbound)
          have hread := hnow now rfl
          have htaken : log.ends[span] ∈ log.ends.take log.opened :=
            List.mem_take_iff_getElem.mpr ⟨span, by omega, rfl⟩
          have hanchored := (hanchor _ htaken).2 endedAt rfl
          rw [← ShouldDropPc.returned.inj hpc, decide_eq_true_iff]
          exact tdiv_lt_hangover (by omega) (by omega)

/-- A silent call that began behind a rising edge finds `in_hangover_` clear exactly between a
rising edge's store and the next falling edge's. -/
theorem inHangover_iff (h : Kept (s, log)) (hpc : s.shouldDrop = .silent)
    (hopened : 0 < log.opened) :
    s.gate.inHangover = true ↔
      s.setSpeaking = .rising ∨ s.setSpeaking = .outside ∧ s.gate.speaking = false := by
  have hreader : ReaderHolds s log .silent := hpc ▸ h.reader
  have hwriter : WriterHolds s.gate log s.setSpeaking := h.writer
  unfold ReaderHolds at hreader
  cases hset : s.setSpeaking with
  | outside =>
      rw [hset] at hwriter
      obtain ⟨hflag, hcount⟩ := hwriter
      simp only [hflag, reduceCtorEq, false_or, true_and, and_iff_left_iff_imp]
      intro hsilent hnil
      rw [hsilent, if_neg Bool.false_ne_true] at hcount hreader
      rw [hnil, List.length_nil] at hcount
      omega
  | rising =>
      rw [hset] at hwriter
      obtain ⟨hspeaks, hflag, hcount⟩ := hwriter
      simp only [hflag, reduceCtorEq, false_and, or_false, iff_true]
      intro hnil
      rw [hspeaks, if_pos rfl] at hreader
      rw [hnil, List.length_nil] at hcount
      omega
  | falling | anchoring | arming =>
      rw [hset] at hwriter
      simp only [hwriter.2.1, reduceCtorEq, false_and, or_false]

theorem opened_le_ends (h : Kept (s, log)) (hpc : s.shouldDrop = .silent)
    (hset : s.gate.inHangover = true) : log.opened ≤ log.ends.length := by
  rcases Nat.eq_zero_or_pos log.opened with hzero | hopened
  · omega
  have hreader : ReaderHolds s log .silent := hpc ▸ h.reader
  have hwriter : WriterHolds s.gate log s.setSpeaking := h.writer
  unfold ReaderHolds at hreader
  rcases (inHangover_iff h hpc hopened).mp hset with hrising | ⟨houtside, hsilent⟩
  · rw [hrising] at hwriter
    obtain ⟨hspeaks, -, hcount⟩ := hwriter
    rw [hspeaks, if_pos rfl] at hreader
    omega
  · rw [houtside] at hwriter
    obtain ⟨-, hcount⟩ := hwriter
    rw [hsilent, if_neg Bool.false_ne_true] at hcount hreader
    omega

/-- What an access of `should_drop_now` does: a call that ends with it answers rightly exactly
if the access is in time. -/
structure DropStep (s : GateHost) (log : GateLog) (access : DropAccess) (pc : ShouldDropPc) :
    Prop where
  reader : ReaderHolds s (log.begin access) pc
  answers : (∀ answer, pc = .returned answer →
    InSpan s.gate.hangover (log.begin access).opened log.ends s.clock → answer = true) ↔
      LoadsInTime (s, log) (.shouldDrop access)

variable {pc : ShouldDropPc}

theorem loadSpeaking_step (hdrop : s.dropStep .loadSpeaking s.shouldDrop = some pc) :
    DropStep s log .loadSpeaking pc := by
  have hpc : pc = if s.gate.speaking = true then .returned true else .silent := by
    cases hat : s.shouldDrop <;> rw [hat] at hdrop <;> cases hdrop <;> rfl
  cases hspeaking : s.gate.speaking with
  | true =>
      rw [hspeaking, if_pos rfl] at hpc
      subst hpc
      refine ⟨trivial, iff_of_true (fun answer hanswer _ => ?_) trivial⟩
      exact (ShouldDropPc.returned.inj hanswer).symm
  | false =>
      rw [hspeaking, if_neg Bool.false_ne_true] at hpc
      subst hpc
      refine ⟨?_, iff_of_true (fun answer hanswer _ => ?_) trivial⟩
      · change log.risings + (if s.gate.speaking = true then 1 else 0) ≤ log.risings
        rw [hspeaking]
        exact Nat.le_refl _
      · cases hanswer

theorem loadInHangover_step (h : Kept (s, log))
    (hdrop : s.dropStep .loadInHangover s.shouldDrop = some pc) :
    DropStep s log .loadInHangover pc := by
  have hat : s.shouldDrop = .silent := by
    cases hat : s.shouldDrop <;> rw [hat] at hdrop <;> first | rfl | cases hdrop
  rw [hat] at hdrop
  cases hset : s.gate.inHangover with
  | true =>
      have hpc : pc = .timing none none := by
        simp only [GateHost.dropStep, hset, ↓reduceIte] at hdrop
        exact (Option.some.inj hdrop).symm
      subst hpc
      have hlast := h.armed hset
      refine ⟨⟨fun t ht => (by cases ht), opened_le_ends h hat hset, fun t ht => ⟨?_, ?_⟩⟩, ?_⟩
      · exact le_of_getLast? h.sorted hlast (List.mem_of_mem_take ht)
      · exact fun anchor hanchor => (by cases hanchor)
      · refine iff_of_true (fun answer hanswer _ => (by cases hanswer)) ?_
        rintro ⟨span, hspan, -⟩
        exact (inHangover_iff h hat (Nat.zero_lt_of_lt hspan)).mp hset
  | false =>
      have hpc : pc = .returned false := by
        simp only [GateHost.dropStep, hset, Bool.false_eq_true, ↓reduceIte] at hdrop
        exact (Option.some.inj hdrop).symm
      subst hpc
      refine ⟨trivial, ?_, ?_⟩
      · exact fun hright hspan => absurd (hright false rfl hspan) Bool.false_ne_true
      · intro hintime answer hanswer hspan
        have hlate := (inHangover_iff h hat (Nat.zero_lt_of_lt hspan.choose_spec.1)).mpr
          (hintime hspan)
        rw [hset] at hlate
        cases hlate

theorem readNow_step (h : Kept (s, log))
    (hdrop : s.dropStep .readNow s.shouldDrop = some pc) : DropStep s log .readNow pc := by
  obtain ⟨endedAt, hat, rfl⟩ : ∃ endedAt, s.shouldDrop = .timing none endedAt ∧
      pc = GateHost.compare s.gate.hangover (some s.clock) endedAt := by
    cases hat : s.shouldDrop with
    | timing now endedAt =>
        rw [hat] at hdrop
        cases now <;> cases hdrop
        exact ⟨endedAt, rfl, rfl⟩
    | _ => rw [hat] at hdrop; cases hdrop
  have hreader : ReaderHolds s log (.timing none endedAt) := hat ▸ h.reader
  have hread : ReaderHolds s log (.timing (some s.clock) endedAt) :=
    ⟨fun t ht => Int.le_of_eq (Option.some.inj ht).symm, hreader.2⟩
  obtain ⟨hholds, hright⟩ := compare_spec h.past hread
  exact ⟨hholds, iff_of_true hright trivial⟩

theorem loadEndedAt_step (h : Kept (s, log))
    (hdrop : s.dropStep .loadEndedAt s.shouldDrop = some pc) : DropStep s log .loadEndedAt pc := by
  obtain ⟨now, hat, rfl⟩ : ∃ now, s.shouldDrop = .timing now none ∧
      pc = GateHost.compare s.gate.hangover now (some s.gate.endedAt) := by
    cases hat : s.shouldDrop with
    | timing now endedAt =>
        rw [hat] at hdrop
        cases endedAt <;> cases hdrop
        exact ⟨now, rfl, rfl⟩
    | _ => rw [hat] at hdrop; cases hdrop
  have hreader : ReaderHolds s log (.timing now none) := hat ▸ h.reader
  have hread : ReaderHolds s log (.timing now (some s.gate.endedAt)) := by
    refine ⟨hreader.1, hreader.2.1, fun t ht => ⟨(hreader.2.2 t ht).1, fun anchor hanchor => ?_⟩⟩
    rw [← Option.some.inj hanchor]
    exact (hreader.2.2 t ht).1
  obtain ⟨hholds, hright⟩ := compare_spec h.past hread
  exact ⟨hholds, iff_of_true hright trivial⟩

theorem dropStep_spec (h : Kept (s, log)) {access : DropAccess}
    (hdrop : s.dropStep access s.shouldDrop = some pc) : DropStep s log access pc := by
  cases access with
  | loadSpeaking => exact loadSpeaking_step hdrop
  | loadInHangover => exact loadInHangover_step h hdrop
  | readNow => exact readNow_step h hdrop
  | loadEndedAt => exact loadEndedAt_step h hdrop

theorem begin_same (access : DropAccess) (log : GateLog) :
    (log.begin access).ends = log.ends ∧ (log.begin access).risings = log.risings ∧
      (log.begin access).calls = log.calls := by
  unfold GateLog.begin
  split <;> exact ⟨rfl, rfl, rfl⟩

theorem noteReturn_same (clock : Int) (log : GateLog) (pc : Option ShouldDropPc) :
    (log.noteReturn clock pc).ends = log.ends ∧ (log.noteReturn clock pc).risings = log.risings ∧
      (log.noteReturn clock pc).opened = log.opened := by
  unfold GateLog.noteReturn
  split <;> exact ⟨rfl, rfl, rfl⟩

theorem noHole_noteReturn (hangover : Int) (access : DropAccess) (clock : Int) (log : GateLog)
    (pc : ShouldDropPc) :
    ((log.begin access).noteReturn clock (some pc)).NoHole hangover ↔
      log.NoHole hangover ∧ ∀ answer, pc = .returned answer →
        InSpan hangover (log.begin access).opened log.ends clock → answer = true := by
  have hbegin := begin_same access log
  cases pc with
  | returned answer =>
      simp only [GateLog.NoHole, GateLog.noteReturn, hbegin, List.forall_mem_append,
        List.forall_mem_singleton, ShouldDropPc.returned.injEq, forall_eq']
  | _ =>
      simp only [GateLog.NoHole, GateLog.noteReturn, hbegin, reduceCtorEq, false_implies,
        implies_true, and_true]

/-- The notes of an access concern neither the writer nor the reader's place. -/
theorem Kept.drop (h : Kept (s, log)) {access : DropAccess} {pc : ShouldDropPc}
    (hreader : ReaderHolds s (log.begin access) pc) :
    Kept ({ s with shouldDrop := pc }, (log.begin access).noteReturn s.clock (some pc)) := by
  obtain ⟨sorted, past, armed, writer, -⟩ := h
  obtain ⟨hends, hrisings, -⟩ := begin_same access log
  obtain ⟨hends', hrisings', hopened'⟩ := noteReturn_same s.clock (log.begin access) (some pc)
  rw [hends] at hends'
  rw [hrisings] at hrisings'
  refine ⟨?_, ?_, ?_, ?_, ?_⟩
  · rwa [hends']
  · rwa [hends']
  · rwa [hends']
  · unfold WriterHolds at writer ⊢
    rwa [hends', hrisings']
  · unfold ReaderHolds at hreader ⊢
    rw [hends, hrisings] at hreader
    rwa [hends', hrisings', hopened']

theorem step_hangover {a : GateAction} (hstep : s.step a = some s') :
    s'.gate.hangover = s.gate.hangover := by
  cases a with
  | advance ns =>
      cases hstep
      rfl
  | shouldDrop access =>
      obtain ⟨pc, -, rfl⟩ := Option.map_eq_some_iff.mp hstep
      rfl
  | _ =>
      simp only [GateHost.step] at hstep
      split at hstep <;> cases hstep <;> rfl

/-- What one step does: it keeps the invariant, and it leaves no hole exactly if it is in
time. -/
theorem watch_step {p p' : GateHost × GateLog} {a : GateAction} (h : Kept p)
    (hstep : watch GateHost.step GateLog.note p a = some p') :
    Kept p' ∧ (p'.2.NoHole p.1.gate.hangover ↔
      p.2.NoHole p.1.gate.hangover ∧ LoadsInTime p a) := by
  obtain ⟨s, log⟩ := p
  obtain ⟨s', log'⟩ := p'
  obtain ⟨hs, hlog⟩ := watch_eq_some.mp hstep
  change log' = log.note s a at hlog
  subst hlog
  cases a with
  | advance ns =>
      cases hs
      exact ⟨h.advance ns, (and_iff_left trivial).symm⟩
  | exchange active =>
      refine ⟨h.exchange hs, ?_⟩
      have hcalls : (log.note s (.exchange active)).calls = log.calls := by
        unfold GateLog.note
        dsimp only
        split <;> rfl
      unfold GateLog.NoHole
      rw [hcalls]
      exact (and_iff_left trivial).symm
  | readEnd => exact ⟨h.readEnd hs, (and_iff_left trivial).symm⟩
  | storeEndedAt => exact ⟨h.storeEndedAt hs, (and_iff_left trivial).symm⟩
  | storeInHangover => exact ⟨h.storeInHangover hs, (and_iff_left trivial).symm⟩
  | shouldDrop access =>
      obtain ⟨pc, hdrop, rfl⟩ := Option.map_eq_some_iff.mp hs
      obtain ⟨hreader, hright⟩ := dropStep_spec h hdrop
      have hnote : log.note s (.shouldDrop access) =
          (log.begin access).noteReturn s.clock (some pc) := by rw [← hdrop]; rfl
      rw [hnote]
      refine ⟨h.drop hreader, ?_⟩
      rw [noHole_noteReturn, hright]

/-- In a run no call within a span is answered that samples are kept exactly if no such call
looks for a hangover between a rising edge's store and the next falling edge's. -/
theorem noHole_iff {hangover clock : Int} {as : List GateAction}
    (hrun : run (watch GateHost.step GateLog.note) (GateHost.new hangover clock, {}) as =
      some (s, log)) :
    log.NoHole hangover ↔ Always (watch GateHost.step GateLog.note) LoadsInTime
      (GateHost.new hangover clock, {}) as := by
  have hkeeps : ∀ p a p', (Kept p ∧ p.1.gate.hangover = hangover) →
      watch GateHost.step GateLog.note p a = some p' →
      Kept p' ∧ p'.1.gate.hangover = hangover := fun p a p' hp hstep =>
    ⟨(watch_step hp.1 hstep).1, (step_hangover (watch_eq_some.mp hstep).1).trans hp.2⟩
  refine run_iff_always (fun p => Kept p ∧ p.1.gate.hangover = hangover)
    (fun p => p.2.NoHole hangover) hkeeps ?_ ?_ hrun ⟨kept_new hangover clock, rfl⟩ ?_
  · rintro p a p' ⟨hkept, rfl⟩ hgood hstep
    exact (watch_step hkept hstep).2.trans (and_iff_right hgood)
  · rintro p a p' ⟨hkept, rfl⟩ hbad hstep hgood
    exact hbad ((watch_step hkept hstep).2.mp hgood).1
  · exact fun call hcall => absurd hcall List.not_mem_nil

/-- A turn is spoken, and a callback comes while its tail is still to be heard. -/
theorem noHole_iff_tail :
    GateLog.NoHole 200 ⟨1, [30], 1, [⟨1, [30], 1000030, true⟩]⟩ ↔
      Always (watch GateHost.step GateLog.note) LoadsInTime (GateHost.new 200 0, {})
        [.exchange true, .storeInHangover, .advance 30, .exchange false, .readEnd, .storeEndedAt,
          .storeInHangover, .advance 1000000, .shouldDrop .loadSpeaking,
          .shouldDrop .loadInHangover, .shouldDrop .readNow, .shouldDrop .loadEndedAt] :=
  noHole_iff rfl

/-- On the falling edge `speaking_` is cleared before `in_hangover_` is set. -/
theorem falling_edge_hole :
    ¬∀ (hangover clock : Int) (as : List GateAction) (s : GateHost) (log : GateLog),
      run (watch GateHost.step GateLog.note) (GateHost.new hangover clock, {}) as =
        some (s, log) → log.NoHole hangover := by
  intro h
  have hright := h 200 0 [.exchange true, .storeInHangover, .exchange false,
    .shouldDrop .loadSpeaking, .shouldDrop .loadInHangover] _ ⟨1, [], 1, [⟨1, [], 0, false⟩]⟩ rfl
    ⟨1, [], 0, false⟩ (List.mem_singleton_self _) ⟨0, Nat.one_pos, fun t ht => by cases ht⟩
  cases hright

/-- The next rising edge clears `in_hangover_` under a call that found nobody speaking. -/
example : (run (watch GateHost.step GateLog.note) (GateHost.new 200 0, {})
    [.exchange true, .storeInHangover, .exchange false, .readEnd, .storeEndedAt, .storeInHangover,
      .shouldDrop .loadSpeaking, .exchange true, .storeInHangover,
      .shouldDrop .loadInHangover]).map (·.2.calls) = some [⟨1, [0], 0, false⟩] := by decide

end Acva.Audio

import Acva.Core.Handoff
import Acva.Core.Runs
import Acva.Event.Event
import Mathlib.Algebra.Order.Field.Rat
import Mathlib.Algebra.Order.Field.Basic
import Mathlib.Tactic.NormNum

/-! # The barge-in timer

The detector's thread notes when and for which turn a barge-in fired; the callback that falls
silent for another turn takes the note and leaves the latency for the poller of the metrics. The
three threads share three atomics and no lock, and each step below is one access. A latency is an
exact number of milliseconds here.
-/

namespace Acva.Playback

open Acva.Handoff Acva.Runs

/-- Where `note_barge_in` stands. -/
inductive NotePc
  | idle
  | storingTarget (turn : TurnId) (ns : Int)
  | storingNs (turn : TurnId) (ns : Int)
deriving DecidableEq, Repr

/-- Where `maybe_close_barge_in_timer` stands. -/
inductive ClosePc
  | idle
  | entered (active : TurnId)
  | armed (active : TurnId) (ns : Int)
  | apart (active : TurnId) (ns : Int) (target : TurnId)
  | timed (active : TurnId) (ns : Int) (target : TurnId) (now : Int)
  /-- The exchange succeeded. -/
  | swapped (ms : ℚ)
deriving DecidableEq, Repr

structure LatencyTimer where
  publishNs : Int := 0
  targetTurn : TurnId := kNoTurn
  pendingMs : ℚ := -1
  /-- The steady clock. -/
  clock : Int
  noter : NotePc := .idle
  audio : ClosePc := .idle
deriving DecidableEq, Repr

inductive TimerAction
  /-- The detector fires, with the time it has just read. -/
  | fire (turn : TurnId)
  | noter
  /-- A callback has fallen silent; it has read the active turn before. -/
  | silent (active : TurnId)
  | audio
  | poll
  | tick (ns : Nat)
deriving DecidableEq, Repr

def latencyMs (now ns : Int) : ℚ := ((now - ns : Int) : ℚ) / 1000000

namespace LatencyTimer

def noteStep (s : LatencyTimer) : Option LatencyTimer :=
  match s.noter with
  | .idle => none
  | .storingTarget turn ns => some { s with targetTurn := turn, noter := .storingNs turn ns }
  | .storingNs _ ns => some { s with publishNs := ns, noter := .idle }

def audioStep (s : LatencyTimer) : Option LatencyTimer :=
  match s.audio with
  | .idle => none
  | .entered active =>
      if s.publishNs = 0 then some { s with audio := .idle }
      else some { s with audio := .armed active s.publishNs }
  | .armed active ns =>
      if active = s.targetTurn then some { s with audio := .idle }
      else some { s with audio := .apart active ns s.targetTurn }
  | .apart active ns target => some { s with audio := .timed active ns target s.clock }
  | .timed _ ns _ now =>
      if s.publishNs = ns then
        some { s with publishNs := 0, audio := .swapped (latencyMs now ns) }
      else some { s with audio := .idle }
  | .swapped ms => some { s with pendingMs := ms, audio := .idle }

def step (s : LatencyTimer) : TimerAction → Option LatencyTimer
  | .fire turn =>
      if s.noter = .idle then some { s with noter := .storingTarget turn s.clock } else none
  | .noter => s.noteStep
  | .silent active => if s.audio = .idle then some { s with audio := .entered active } else none
  | .audio => s.audioStep
  | .poll => some { s with pendingMs := -1 }
  | .tick ns => some { s with clock := s.clock + ns }

end LatencyTimer

/-! ## What is written down -/

structure BargeInNote where
  turn : TurnId
  ns : Int
deriving DecidableEq, Repr

structure Measurement where
  /-- What lay in the atomic when it was exchanged. -/
  note : BargeInNote
  active : TurnId
  target : TurnId
  /-- How many notes there were when the callback loaded the time. -/
  seen : Nat
  now : Int
deriving DecidableEq, Repr

def Measurement.ms (m : Measurement) : ℚ := latencyMs m.now m.note.ns

structure LatencyLedger where
  /-- The notes whose target is stored. -/
  begun : List BargeInNote := []
  /-- The notes whose time is stored, too. -/
  notes : List BargeInNote := []
  seen : Nat := 0
  measured : List Measurement := []
  /-- What the poller observes into the histogram. -/
  observed : List ℚ := []
deriving DecidableEq, Repr

namespace LatencyTimer

def begunBy (s : LatencyTimer) : List BargeInNote :=
  match s.noter with
  | .storingTarget turn ns => [⟨turn, ns⟩]
  | _ => []

def notedBy (s : LatencyTimer) : List BargeInNote :=
  match s.noter with
  | .storingNs turn ns => [⟨turn, ns⟩]
  | _ => []

/-- The exchange takes the newest note. -/
def measuredBy (l : LatencyLedger) (s : LatencyTimer) : List Measurement :=
  match s.audio with
  | .timed active ns target now =>
      if s.publishNs = ns then
        l.notes.getLast?.toList.map fun note => ⟨note, active, target, l.seen, now⟩
      else []
  | _ => []

def observedBy (s : LatencyTimer) : List ℚ := if 0 ≤ s.pendingMs then [s.pendingMs] else []

def seenBy (l : LatencyLedger) (s : LatencyTimer) : Nat :=
  match s.audio with
  | .entered _ => l.notes.length
  | _ => l.seen

def noteLatency (l : LatencyLedger) (s : LatencyTimer) : TimerAction → LatencyLedger
  | .noter => { l with begun := l.begun ++ s.begunBy, notes := l.notes ++ s.notedBy }
  | .audio => { l with seen := s.seenBy l, measured := l.measured ++ s.measuredBy l }
  | .poll => { l with observed := l.observed ++ s.observedBy }
  | _ => l

end LatencyTimer

/-! ## The invariant -/

/-- The callback has loaded the time of the note that was then the newest. -/
def Loaded (l : LatencyLedger) (seen : Nat) (ns : Int) : Prop :=
  ∃ n, l.notes[seen - 1]? = some n ∧ n.ns = ns

/-- A turn was noted as the target no earlier than the note that was loaded. -/
def NotedSince (l : LatencyLedger) (seen : Nat) (target : TurnId) : Prop :=
  ∃ n ∈ l.begun.drop (seen - 1), n.turn = target

/-- A latency runs from the note to a callback whose turn was another than that of the note, or
than that of a later one. -/
structure Sound (l : LatencyLedger) (m : Measurement) : Prop where
  after : m.note.ns ≤ m.now
  apart : m.active ≠ m.target
  loaded : Loaded l m.seen m.note.ns
  noted : NotedSince l m.seen m.target

def ClosePc.Catches (l : LatencyLedger) (clock : Int) : ClosePc → Prop
  | .armed _ ns => Loaded l l.seen ns ∧ ns ≠ 0
  | .apart active ns target =>
      (Loaded l l.seen ns ∧ ns ≠ 0) ∧ active ≠ target ∧ NotedSince l l.seen target
  | .timed active ns target now =>
      (Loaded l l.seen ns ∧ ns ≠ 0) ∧ (active ≠ target ∧ NotedSince l l.seen target) ∧
        ns ≤ now ∧ now ≤ clock
  | _ => True

/-- The latency that is not stored yet. -/
def ClosePc.stash : ClosePc → List ℚ
  | .swapped ms => [ms]
  | _ => []

def NotePc.Keeps (l : LatencyLedger) (clock : Int) : NotePc → Prop
  | .idle => l.begun = l.notes
  | .storingTarget _ ns => l.begun = l.notes ∧ 0 < ns ∧ ns ≤ clock
  | .storingNs turn ns => l.begun = l.notes ++ [⟨turn, ns⟩] ∧ 0 < ns ∧ ns ≤ clock

structure LatencyInv (w : LatencyTimer × LatencyLedger) : Prop where
  clock : 0 < w.1.clock
  noter : w.1.noter.Keeps w.2 w.1.clock
  target : ∀ n, w.2.begun.getLast? = some n → w.1.targetTurn = n.turn
  times : ∀ n ∈ w.2.notes, 0 < n.ns ∧ n.ns ≤ w.1.clock
  slot : ∃ slot : Option BargeInNote, Handed w.2.notes (w.2.measured.map (·.note)) slot ∧
    w.1.publishNs = (slot.map (·.ns)).getD 0
  cell : ∃ cell stored, Handed stored w.2.observed cell ∧ w.1.pendingMs = cell.getD (-1) ∧
    w.2.measured.map (·.ms) = stored ++ w.1.audio.stash
  audio : w.1.audio.Catches w.2 w.1.clock
  sound : ∀ m ∈ w.2.measured, Sound w.2 m

theorem latencyMs_nonneg {now ns : Int} (h : ns ≤ now) : 0 ≤ latencyMs now ns := by
  have hcast : (0 : ℚ) ≤ ((now - ns : Int) : ℚ) := Int.cast_nonneg (by omega)
  exact div_nonneg hcast (by norm_num)

theorem Sound.ms_nonneg {l : LatencyLedger} {m : Measurement} (h : Sound l m) : 0 ≤ m.ms :=
  latencyMs_nonneg h.after

/-! ### More notes -/

section Grow

variable {l l' : LatencyLedger} {seen : Nat}

theorem Loaded.grow {ns : Int} (h : Loaded l seen ns) (hnotes : l.notes <+: l'.notes) :
    Loaded l' seen ns := by
  obtain ⟨n, hn, hns⟩ := h
  obtain ⟨more, hmore⟩ := hnotes
  obtain ⟨hlt, -⟩ := List.getElem?_eq_some_iff.mp hn
  refine ⟨n, ?_, hns⟩
  rw [← hmore, List.getElem?_append_left hlt]
  exact hn

theorem NotedSince.grow {target : TurnId} (h : NotedSince l seen target)
    (hbegun : l.begun <+: l'.begun) : NotedSince l' seen target := by
  obtain ⟨n, hn, hturn⟩ := h
  obtain ⟨more, hmore⟩ := hbegun
  refine ⟨n, ?_, hturn⟩
  rw [← hmore, List.drop_append]
  exact List.mem_append_left _ hn

theorem Sound.grow {m : Measurement} (h : Sound l m) (hnotes : l.notes <+: l'.notes)
    (hbegun : l.begun <+: l'.begun) : Sound l' m :=
  ⟨h.after, h.apart, h.loaded.grow hnotes, h.noted.grow hbegun⟩

theorem ClosePc.Catches.grow {clock clock' : Int} {pc : ClosePc} (h : pc.Catches l clock)
    (hnotes : l.notes <+: l'.notes) (hbegun : l.begun <+: l'.begun) (hseen : l'.seen = l.seen)
    (hclock : clock ≤ clock') : pc.Catches l' clock' := by
  cases pc with
  | armed active ns =>
      obtain ⟨hloaded, hns⟩ := h
      exact ⟨hseen ▸ hloaded.grow hnotes, hns⟩
  | apart active ns target =>
      obtain ⟨⟨hloaded, hns⟩, hapart, hnoted⟩ := h
      exact ⟨⟨hseen ▸ hloaded.grow hnotes, hns⟩, hapart, hseen ▸ hnoted.grow hbegun⟩
  | timed active ns target now =>
      obtain ⟨⟨hloaded, hns⟩, ⟨hapart, hnoted⟩, hbefore, hnow⟩ := h
      exact ⟨⟨hseen ▸ hloaded.grow hnotes, hns⟩, ⟨hapart, hseen ▸ hnoted.grow hbegun⟩, hbefore,
        hnow.trans hclock⟩
  | _ => trivial

end Grow

/-! ## The steps -/

open LatencyTimer

variable {s s' : LatencyTimer} {l : LatencyLedger}

theorem LatencyInv.fire (hi : LatencyInv (s, l)) (hidle : s.noter = .idle) (turn : TurnId) :
    LatencyInv ({ s with noter := .storingTarget turn s.clock }, l) := by
  have hnoter := hi.noter
  simp only [hidle] at hnoter
  exact ⟨hi.clock, ⟨hnoter, hi.clock, Int.le_refl _⟩, hi.target, hi.times, hi.slot, hi.cell,
    hi.audio, hi.sound⟩

theorem LatencyInv.tick (hi : LatencyInv (s, l)) (ns : Nat) :
    LatencyInv ({ s with clock := s.clock + ns }, l) := by
  have hclock := hi.clock
  dsimp only at hclock
  refine ⟨?_, ?_, hi.target, fun n hn => ?_, hi.slot, hi.cell, ?_, hi.sound⟩
  · show 0 < s.clock + ns
    omega
  · have hnoter := hi.noter
    dsimp only at hnoter ⊢
    cases hpc : s.noter with
    | idle =>
        rw [hpc] at hnoter
        exact hnoter
    | storingTarget turn ts =>
        rw [hpc] at hnoter
        exact ⟨hnoter.1, hnoter.2.1, by have := hnoter.2.2; omega⟩
    | storingNs turn ts =>
        rw [hpc] at hnoter
        exact ⟨hnoter.1, hnoter.2.1, by have := hnoter.2.2; omega⟩
  · have htimes := hi.times n hn
    dsimp only at htimes ⊢
    omega
  · exact hi.audio.grow List.prefix_rfl List.prefix_rfl rfl (by dsimp only; omega)

theorem LatencyInv.noteStep (hi : LatencyInv (s, l)) (h : LatencyTimer.noteStep s = some s') :
    LatencyInv (s', { l with begun := l.begun ++ s.begunBy, notes := l.notes ++ s.notedBy }) := by
  have hnoter := hi.noter
  unfold LatencyTimer.noteStep at h
  cases hpc : s.noter with
  | idle => simp [hpc] at h
  | storingTarget turn ns =>
      simp only [hpc, Option.some.injEq] at h hnoter
      subst h
      obtain ⟨hbegun, hpos, hle⟩ := hnoter
      have hnew : s.begunBy = [⟨turn, ns⟩] := by simp [begunBy, hpc]
      have hnone : s.notedBy = [] := by simp [notedBy, hpc]
      rw [hnew, hnone, List.append_nil]
      have hprefix : l.begun <+: l.begun ++ [⟨turn, ns⟩] := List.prefix_append _ _
      refine ⟨hi.clock, ⟨congrArg (· ++ _) hbegun, hpos, hle⟩, fun n hn => ?_, hi.times, hi.slot,
        hi.cell, hi.audio.grow List.prefix_rfl hprefix rfl (Int.le_refl _),
        fun m hm => (hi.sound m hm).grow List.prefix_rfl hprefix⟩
      simp only [List.getLast?_concat, Option.some.injEq] at hn
      exact congrArg BargeInNote.turn hn
  | storingNs turn ns =>
      simp only [hpc, Option.some.injEq] at h hnoter
      subst h
      obtain ⟨hbegun, hpos, hle⟩ := hnoter
      have hnone : s.begunBy = [] := by simp [begunBy, hpc]
      have hnew : s.notedBy = [⟨turn, ns⟩] := by simp [notedBy, hpc]
      rw [hnew, hnone, List.append_nil]
      have hprefix : l.notes <+: l.notes ++ [⟨turn, ns⟩] := List.prefix_append _ _
      obtain ⟨slot, hslot, -⟩ := hi.slot
      refine ⟨hi.clock, hbegun, hi.target, fun n hn => ?_, ⟨some ⟨turn, ns⟩, hslot.put _, rfl⟩,
        hi.cell, hi.audio.grow hprefix List.prefix_rfl rfl (Int.le_refl _),
        fun m hm => (hi.sound m hm).grow hprefix List.prefix_rfl⟩
      rcases List.mem_append.mp hn with hold | hnew
      · exact hi.times n hold
      · rw [List.mem_singleton.mp hnew]
        exact ⟨hpos, hle⟩

theorem LatencyInv.poll (hi : LatencyInv (s, l)) :
    LatencyInv ({ s with pendingMs := -1 }, { l with observed := l.observed ++ s.observedBy }) := by
  obtain ⟨cell, stored, hcell, hpending, hmeasured⟩ := hi.cell
  have hobserved : s.observedBy = cell.toList := by
    dsimp only at hpending
    cases cell with
    | none => simp [observedBy, hpending]
    | some x =>
        have hmem : x ∈ l.measured.map (·.ms) := by
          rw [hmeasured]
          exact List.mem_append_left _ (List.mem_of_getLast? hcell.newest_held)
        obtain ⟨m, hm, rfl⟩ := List.mem_map.mp hmem
        have hnonneg := (hi.sound m hm).ms_nonneg
        simp [observedBy, hpending, hnonneg]
  rw [hobserved]
  exact ⟨hi.clock, hi.noter, hi.target, hi.times, hi.slot,
    ⟨none, stored, hcell.take, rfl, hmeasured⟩,
    hi.audio.grow List.prefix_rfl List.prefix_rfl rfl (Int.le_refl _),
    fun m hm => (hi.sound m hm).grow List.prefix_rfl List.prefix_rfl⟩

/-- What was noted last is the newest note, and its time is in the atomic. -/
theorem LatencyInv.newest (hi : LatencyInv (s, l)) (harmed : s.publishNs ≠ 0) :
    ∃ n, Handed l.notes (l.measured.map (·.note)) (some n) ∧ l.notes.getLast? = some n ∧
      s.publishNs = n.ns := by
  obtain ⟨slot, hslot, hns⟩ := hi.slot
  cases slot with
  | none => exact absurd hns harmed
  | some n => exact ⟨n, hslot, hslot.newest_held, hns⟩

theorem LatencyInv.entered (hi : LatencyInv (s, l)) {active : TurnId}
    (hpc : s.audio = .entered active) (h : s.audioStep = some s') :
    LatencyInv (s', { l with seen := s.seenBy l, measured := l.measured ++ s.measuredBy l }) := by
  have hseen : s.seenBy l = l.notes.length := by simp [seenBy, hpc]
  have hnone : s.measuredBy l = [] := by simp [measuredBy, hpc]
  have hcell := hi.cell
  rw [hseen, hnone, List.append_nil]
  simp only [audioStep, hpc] at h hcell
  split at h
  next =>
    cases h
    exact ⟨hi.clock, hi.noter, hi.target, hi.times, hi.slot, hcell, trivial,
      fun m hm => (hi.sound m hm).grow List.prefix_rfl List.prefix_rfl⟩
  next harmed =>
    cases h
    obtain ⟨n, -, hlast, hns⟩ := hi.newest harmed
    refine ⟨hi.clock, hi.noter, hi.target, hi.times, hi.slot, hcell, ⟨⟨n, ?_, hns.symm⟩, harmed⟩,
      fun m hm => (hi.sound m hm).grow List.prefix_rfl List.prefix_rfl⟩
    rw [← List.getLast?_eq_getElem?]
    exact hlast

/-- The target is that of the newest note, whose time may not be stored yet. -/
theorem LatencyInv.notedSince (hi : LatencyInv (s, l)) {ns : Int} (hloaded : Loaded l l.seen ns) :
    NotedSince l l.seen s.targetTurn := by
  obtain ⟨n, hn, -⟩ := hloaded
  obtain ⟨hlt, -⟩ := List.getElem?_eq_some_iff.mp hn
  have hbegun : l.notes.length ≤ l.begun.length := by
    have hnoter := hi.noter
    dsimp only at hnoter
    cases hpc : s.noter with
    | idle =>
        rw [hpc] at hnoter
        exact Nat.le_of_eq (congrArg List.length hnoter.symm)
    | storingTarget turn ts =>
        rw [hpc] at hnoter
        exact Nat.le_of_eq (congrArg List.length hnoter.1.symm)
    | storingNs turn ts =>
        rw [hpc] at hnoter
        rw [hnoter.1, List.length_append]
        exact Nat.le_add_right _ _
  have hlast : (l.begun.drop (l.seen - 1)).getLast? = l.begun.getLast? := by
    rw [List.getLast?_drop, if_neg (by omega)]
  cases hnewest : l.begun.getLast? with
  | none =>
      rw [List.getLast?_eq_none_iff] at hnewest
      rw [hnewest] at hbegun
      simp only [List.length_nil] at hbegun
      omega
  | some newest =>
      rw [hnewest] at hlast
      exact ⟨newest, List.mem_of_getLast? hlast, (hi.target newest hnewest).symm⟩

theorem LatencyInv.armed (hi : LatencyInv (s, l)) {active : TurnId} {ns : Int}
    (hpc : s.audio = .armed active ns) (h : s.audioStep = some s') :
    LatencyInv (s', { l with seen := s.seenBy l, measured := l.measured ++ s.measuredBy l }) := by
  have hseen : s.seenBy l = l.seen := by simp [seenBy, hpc]
  have hnone : s.measuredBy l = [] := by simp [measuredBy, hpc]
  have hcell := hi.cell
  have hcatches := hi.audio
  rw [hseen, hnone, List.append_nil]
  simp only [audioStep, hpc] at h hcell hcatches
  split at h
  next =>
    cases h
    exact ⟨hi.clock, hi.noter, hi.target, hi.times, hi.slot, hcell, trivial, hi.sound⟩
  next hapart =>
    cases h
    exact ⟨hi.clock, hi.noter, hi.target, hi.times, hi.slot, hcell,
      ⟨hcatches, hapart, hi.notedSince hcatches.1⟩, hi.sound⟩

theorem LatencyInv.apart (hi : LatencyInv (s, l)) {active target : TurnId} {ns : Int}
    (hpc : s.audio = .apart active ns target) (h : s.audioStep = some s') :
    LatencyInv (s', { l with seen := s.seenBy l, measured := l.measured ++ s.measuredBy l }) := by
  have hseen : s.seenBy l = l.seen := by simp [seenBy, hpc]
  have hnone : s.measuredBy l = [] := by simp [measuredBy, hpc]
  have hcell := hi.cell
  have hcatches := hi.audio
  rw [hseen, hnone, List.append_nil]
  simp only [audioStep, hpc, Option.some.injEq] at h hcell hcatches
  subst h
  obtain ⟨⟨hloaded, hns⟩, hnoted⟩ := hcatches
  have hbefore : ns ≤ s.clock := by
    obtain ⟨n, hn, rfl⟩ := hloaded
    exact (hi.times n (List.mem_of_getElem? hn)).2
  exact ⟨hi.clock, hi.noter, hi.target, hi.times, hi.slot, hcell,
    ⟨⟨hloaded, hns⟩, hnoted, hbefore, Int.le_refl _⟩, hi.sound⟩

/-- The exchange takes the newest note, or finds another time than the one that was loaded. -/
theorem LatencyInv.timed (hi : LatencyInv (s, l)) {active target : TurnId} {ns now : Int}
    (hpc : s.audio = .timed active ns target now) (h : s.audioStep = some s') :
    LatencyInv (s', { l with seen := s.seenBy l, measured := l.measured ++ s.measuredBy l }) := by
  have hseen : s.seenBy l = l.seen := by simp [seenBy, hpc]
  have hcell := hi.cell
  have hcatches := hi.audio
  rw [hseen]
  simp only [audioStep, hpc] at h hcell hcatches
  obtain ⟨⟨hloaded, hpos⟩, ⟨hapart, hnoted⟩, hbefore, -⟩ := hcatches
  split at h
  next hns =>
    cases h
    obtain ⟨n, hslot, hlast, hnewest⟩ := hi.newest (hns ▸ hpos)
    have hnew : s.measuredBy l = [⟨n, active, target, l.seen, now⟩] := by
      simp [measuredBy, hpc, hns, hlast]
    obtain rfl : n.ns = ns := hnewest.symm.trans hns
    rw [hnew]
    obtain ⟨cell, stored, hstored, hpending, hmeasured⟩ := hcell
    refine ⟨hi.clock, hi.noter, hi.target, hi.times, ⟨none, ?_, rfl⟩, ⟨cell, stored, hstored,
      hpending, ?_⟩, trivial, fun m hm => ?_⟩
    · rw [List.map_append]
      exact hslot.take
    · rw [List.map_append, hmeasured]
      simp [ClosePc.stash, Measurement.ms]
    · rcases List.mem_append.mp hm with hold | hnew
      · exact (hi.sound m hold).grow List.prefix_rfl List.prefix_rfl
      · rw [List.mem_singleton.mp hnew]
        exact ⟨hbefore, hapart, hloaded, hnoted⟩
  next hns =>
    cases h
    have hnone : s.measuredBy l = [] := by simp [measuredBy, hpc, hns]
    rw [hnone, List.append_nil]
    exact ⟨hi.clock, hi.noter, hi.target, hi.times, hi.slot, hcell, trivial, hi.sound⟩

theorem LatencyInv.swapped (hi : LatencyInv (s, l)) {ms : ℚ} (hpc : s.audio = .swapped ms)
    (h : s.audioStep = some s') :
    LatencyInv (s', { l with seen := s.seenBy l, measured := l.measured ++ s.measuredBy l }) := by
  have hseen : s.seenBy l = l.seen := by simp [seenBy, hpc]
  have hnone : s.measuredBy l = [] := by simp [measuredBy, hpc]
  have hcell := hi.cell
  rw [hseen, hnone, List.append_nil]
  simp only [audioStep, hpc, Option.some.injEq] at h hcell
  subst h
  obtain ⟨cell, stored, hstored, -, hmeasured⟩ := hcell
  refine ⟨hi.clock, hi.noter, hi.target, hi.times, hi.slot, ⟨some ms, stored ++ [ms],
    hstored.put ms, rfl, ?_⟩, trivial, hi.sound⟩
  rw [hmeasured]
  exact (List.append_nil _).symm

theorem LatencyInv.audioStep (hi : LatencyInv (s, l)) (h : s.audioStep = some s') :
    LatencyInv (s', { l with seen := s.seenBy l, measured := l.measured ++ s.measuredBy l }) := by
  cases hpc : s.audio with
  | idle => simp [LatencyTimer.audioStep, hpc] at h
  | entered active => exact hi.entered hpc h
  | armed active ns => exact hi.armed hpc h
  | apart active ns target => exact hi.apart hpc h
  | timed active ns target now => exact hi.timed hpc h
  | swapped ms => exact hi.swapped hpc h

theorem LatencyInv.step {w w' : LatencyTimer × LatencyLedger} {a : TimerAction}
    (hi : LatencyInv w) (h : watch LatencyTimer.step noteLatency w a = some w') :
    LatencyInv w' := by
  obtain ⟨s, l⟩ := w
  obtain ⟨s', l'⟩ := w'
  obtain ⟨hstep, rfl⟩ := watch_eq_some.mp h
  cases a with
  | fire turn =>
      simp only [LatencyTimer.step] at hstep
      split at hstep
      next hidle =>
        cases hstep
        exact hi.fire hidle turn
      next => cases hstep
  | noter => exact hi.noteStep hstep
  | silent active =>
      simp only [LatencyTimer.step] at hstep
      split at hstep
      next hidle =>
        cases hstep
        have hcell := hi.cell
        simp only [hidle] at hcell
        exact ⟨hi.clock, hi.noter, hi.target, hi.times, hi.slot, hcell, trivial, hi.sound⟩
      next => cases hstep
  | audio => exact hi.audioStep hstep
  | poll =>
      cases hstep
      exact hi.poll
  | tick ns =>
      cases hstep
      exact hi.tick ns

/-! ## Runs -/

namespace LatencyTimer

def initial (start : Int) : LatencyTimer where
  clock := start

theorem initial_inv {start : Int} (hstart : 0 < start) : LatencyInv (initial start, {}) where
  clock := hstart
  noter := rfl
  target := nofun
  times := nofun
  slot := ⟨none, .start, rfl⟩
  cell := ⟨none, [], .start, rfl, rfl⟩
  audio := trivial
  sound := nofun

/-- The notes that are measured, and the latencies that are observed. -/
structure TimesBargeIns (s : LatencyTimer) (l : LatencyLedger) : Prop where
  once : (l.measured.map (·.note)).Sublist l.notes
  newest : s.publishNs = 0 → (l.measured.map (·.note)).getLast? = l.notes.getLast?
  reported : l.observed.Sublist (l.measured.map (·.ms))
  newestReported : s.audio.stash = [] → s.pendingMs = -1 →
    l.observed.getLast? = (l.measured.map (·.ms)).getLast?
  sound : ∀ m ∈ l.measured, Sound l m

theorem LatencyInv.timesBargeIns (hi : LatencyInv (s, l)) : TimesBargeIns s l := by
  obtain ⟨slot, hslot, hns⟩ := hi.slot
  obtain ⟨cell, stored, hcell, hpending, hmeasured⟩ := hi.cell
  dsimp only at hns hpending hmeasured
  refine ⟨hslot.taken_sublist, fun hzero => ?_, ?_, fun hstash hnone => ?_, hi.sound⟩
  · cases slot with
    | none => exact hslot.newest_taken
    | some n =>
        have hpos := (hi.times n (List.mem_of_getLast? hslot.newest_held)).1
        rw [hzero] at hns
        exact absurd hns (Int.ne_of_lt hpos)
  · rw [hmeasured]
    exact hcell.taken_sublist.trans (List.sublist_append_left _ _)
  · rw [hmeasured, hstash, List.append_nil]
    cases cell with
    | none => exact hcell.newest_taken
    | some x =>
        -- a latency is not negative
        have hmem : x ∈ l.measured.map (·.ms) := by
          rw [hmeasured]
          exact List.mem_append_left _ (List.mem_of_getLast? hcell.newest_held)
        obtain ⟨m, hm, rfl⟩ := List.mem_map.mp hmem
        have hnonneg := (hi.sound m hm).ms_nonneg
        rw [hnone] at hpending
        simp only [Option.getD_some] at hpending
        rw [← hpending] at hnonneg
        norm_num at hnonneg

/-- A callback that is let through and a poll behind it report the newest note. -/
theorem LatencyInv.reports (hi : LatencyInv (s, l)) {active : TurnId} (hidle : s.audio = .idle)
    (harmed : s.publishNs ≠ 0) (hapart : active ≠ s.targetTurn) :
    ∃ n w, l.notes.getLast? = some n ∧ run (watch step noteLatency) (s, l)
        [.silent active, .audio, .audio, .audio, .audio, .audio, .poll] = some w ∧
      w.2.observed = l.observed ++ [latencyMs s.clock n.ns] := by
  obtain ⟨n, -, hlast, hns⟩ := hi.newest harmed
  have hbefore : s.publishNs ≤ s.clock := hns ▸ (hi.times n (List.mem_of_getLast? hlast)).2
  have hnonneg := latencyMs_nonneg hbefore
  obtain ⟨publishNs, targetTurn, pendingMs, clock, noter, audio⟩ := s
  dsimp only at hidle harmed hapart hnonneg hns ⊢
  subst hidle hns
  refine ⟨n, (⟨0, targetTurn, -1, clock, noter, .idle⟩, { l with
    seen := l.notes.length
    measured := l.measured ++ [⟨n, active, targetTurn, l.notes.length, clock⟩]
    observed := l.observed ++ [latencyMs clock n.ns] }), hlast, ?_, rfl⟩
  simp [watch, step, LatencyTimer.audioStep, harmed, hapart, noteLatency, seenBy, measuredBy,
    observedBy, hlast, hnonneg]

/-- Over every interleaving: each barge-in is measured at most once and in order, from its note
to a callback that was silent for a turn other than the noted one; each latency is observed at
most once and in order; and the newest is lost in neither place. -/
theorem run_timesBargeIns {start : Int} (hstart : 0 < start) {acts : List TimerAction}
    (hrun : run (watch step noteLatency) (initial start, {}) acts = some (s, l)) :
    TimesBargeIns s l ∧
      ∀ active, s.audio = .idle → s.publishNs ≠ 0 → active ≠ s.targetTurn →
        ∃ n w, l.notes.getLast? = some n ∧ run (watch step noteLatency) (s, l)
            [.silent active, .audio, .audio, .audio, .audio, .audio, .poll] = some w ∧
          w.2.observed = l.observed ++ [latencyMs s.clock n.ns] := by
  have hinv : LatencyInv (s, l) :=
    run_preserves LatencyInv (fun _ _ _ hi hs => hi.step hs) hrun (initial_inv hstart)
  exact ⟨LatencyInv.timesBargeIns hinv, fun active hidle harmed hapart =>
    LatencyInv.reports hinv hidle harmed hapart⟩

/-- The second barge-in is noted while a callback is at the first one's time. -/
def overtaken : List TimerAction :=
  [.fire 1, .tick 1000000, .noter, .noter, .silent 2, .audio, .audio, .audio, .fire 2, .noter,
    .noter, .audio, .tick 2000000, .silent 3, .audio, .audio, .audio, .audio, .audio, .poll]

theorem run_timesBargeIns_overtaken : ∃ s l,
    run (watch step noteLatency) (initial 5, {}) overtaken = some (s, l) ∧
      l.notes.length = 2 ∧ l.observed = [2] ∧ TimesBargeIns s l := by
  obtain ⟨⟨s, l⟩, hrun, hnotes, hobserved⟩ : ∃ w,
      run (watch step noteLatency) (initial 5, {}) overtaken = some w ∧
        w.2.notes.length = 2 ∧ w.2.observed = [2] := by
    refine ⟨(run (watch step noteLatency) (initial 5, {}) overtaken).get (by decide +kernel), ?_,
      by decide +kernel, by decide +kernel⟩
    exact (Option.some_get _).symm
  exact ⟨s, l, hrun, hnotes, hobserved, (run_timesBargeIns (by decide) hrun).1⟩

end LatencyTimer

end Acva.Playback

import Acva.Dialogue.BargeIn

/-! # One interruption for each turn

The detector remembers one turn, the last it has fired for. As long as the turns it
sees active never go down that is enough: a turn it has fired for is not below any
that is still to come. The attempts it suppresses leave the memory as it is and are
counted once in total and once under their cause.
-/

namespace Acva.Dialogue.BargeInDetector

/-- One `SpeechStarted`: the snapshot that is taken for it, the clock and the APM's readings. -/
structure Evaluation where
  snap : FsmSnapshot
  now : TimePoint
  apm : Option Apm
deriving DecidableEq, Repr

/-- The detector after a sequence of `SpeechStarted` events, and what it has published. -/
def hear : List Evaluation → BargeInDetector → BargeInDetector × List UserInterrupted
  | [], d => (d, [])
  | e :: es, d =>
      let (d', fired) := d.onSpeechStarted e.snap e.now e.apm
      let (last, rest) := hear es d'
      (last, fired.toList ++ rest)

theorem hear_cons (e : Evaluation) (es : List Evaluation) (d : BargeInDetector) :
    hear (e :: es) d =
      ((hear es (d.onSpeechStarted e.snap e.now e.apm).1).1,
        (d.onSpeechStarted e.snap e.now e.apm).2.toList ++
          (hear es (d.onSpeechStarted e.snap e.now e.apm).1).2) := rfl

/-- The gates: the machine speaks, has done so for long enough, and the echo is cancelled. -/
structure Passes (d : BargeInDetector) (e : Evaluation) : Prop where
  speaking : e.snap.state = .speaking
  turn : e.snap.activeTurn ≠ kNoTurn
  cooledDown : d.cfg.coolDownAfterTurnMs ≤ (e.now - e.snap.enteredSpeakingAt).tdiv nsPerMs
  aec : (d.aecOk e.apm).1 = true

/-- The detector once it has fired. -/
def fire (e : Evaluation) (d : BargeInDetector) : BargeInDetector :=
  { d with
    lastFiredTurn := e.snap.activeTurn
    lastFiredNs := e.now
    firesTotal := d.firesTotal + 1 }

/-- The milliseconds that are compared are cut toward zero, which matters to none but a
clock that is behind where there is no cool-down. -/
theorem Passes.elapsed {d : BargeInDetector} {e : Evaluation} (h : d.Passes e)
    (hclock : 0 < d.cfg.coolDownAfterTurnMs ∨ e.snap.enteredSpeakingAt ≤ e.now) :
    d.cfg.coolDownAfterTurnMs * nsPerMs ≤ e.now - e.snap.enteredSpeakingAt := by
  have hms := h.cooledDown
  by_cases hback : 0 ≤ e.now - e.snap.enteredSpeakingAt
  · rw [Int.tdiv_eq_ediv_of_nonneg hback] at hms
    exact (Int.le_ediv_iff_mul_le (by decide)).mp hms
  · have hneg : (e.now - e.snap.enteredSpeakingAt).tdiv nsPerMs ≤ 0 := by
      have hpos := Int.tdiv_nonneg (Int.neg_nonneg.mpr (Int.le_of_not_le hback))
        (show 0 ≤ nsPerMs by decide)
      rw [Int.neg_tdiv] at hpos
      exact Int.neg_nonneg.mp hpos
    rcases hclock with hcool | hforward
    · exact absurd (Int.le_trans hms hneg) (Int.not_le.mpr hcool)
    · exact absurd (Int.sub_nonneg_of_le hforward) hback

/-! ## One event -/

theorem aecOk_eq (d : BargeInDetector) (apm : Option Apm) :
    d.aecOk apm = (true, d) ∨
      d.aecOk apm = (false, { d with suppressedAec := d.suppressedAec + 1 }) := by
  unfold aecOk
  split
  · exact .inl rfl
  split
  · exact .inl rfl
  cases apm with
  | none => exact .inr rfl
  | some a =>
      dsimp only
      split
      · exact .inl rfl
      · exact .inr rfl

theorem aecOk_congr {d d' : BargeInDetector} (hcfg : d.cfg = d'.cfg)
    (hsystem : d.systemAecActive = d'.systemAecActive) (apm : Option Apm) :
    (d.aecOk apm).1 = (d'.aecOk apm).1 := by
  unfold aecOk
  rw [hcfg, hsystem]
  split
  · rfl
  split
  · rfl
  cases apm with
  | none => rfl
  | some a =>
      dsimp only
      split
      · rfl
      · rfl

/-- All that an event can do: nothing, a suppressed attempt, or an interruption. -/
theorem onSpeechStarted_cases (d : BargeInDetector) (e : Evaluation) :
    d.onSpeechStarted e.snap e.now e.apm = (d, none) ∨
      d.onSpeechStarted e.snap e.now e.apm = ({ d with
        suppressedCooldown := d.suppressedCooldown + 1
        suppressedTotal := d.suppressedTotal + 1 }, none) ∨
      d.onSpeechStarted e.snap e.now e.apm = ({ d with
        suppressedAec := d.suppressedAec + 1
        suppressedTotal := d.suppressedTotal + 1 }, none) ∨
      d.Passes e ∧ d.lastFiredTurn ≠ e.snap.activeTurn ∧
        d.onSpeechStarted e.snap e.now e.apm =
          (d.fire e, some { turn := e.snap.activeTurn, ts := e.now }) := by
  by_cases hspeaking : e.snap.state = .speaking
  swap
  · exact .inl (by simp [onSpeechStarted, hspeaking])
  by_cases hturn : e.snap.activeTurn = kNoTurn
  · exact .inl (by simp [onSpeechStarted, hturn])
  by_cases hlast : d.lastFiredTurn = e.snap.activeTurn
  · exact .inl (onSpeechStarted_refires _ _ hlast)
  by_cases hcool : (e.now - e.snap.enteredSpeakingAt).tdiv nsPerMs < d.cfg.coolDownAfterTurnMs
  · exact .inr (.inl (by simp [onSpeechStarted, hspeaking, hturn, hlast, hcool]))
  rcases d.aecOk_eq e.apm with haec | haec
  · refine .inr (.inr (.inr ⟨⟨hspeaking, hturn, Int.not_lt.mp hcool, by rw [haec]⟩, hlast, ?_⟩))
    simp [onSpeechStarted, hspeaking, hturn, hlast, hcool, haec, fire]
  · exact .inr (.inr (.inl (by simp [onSpeechStarted, hspeaking, hturn, hlast, hcool, haec])))

/-! ## Any sequence of events -/

/-- What the detector keeps: its settings, and a cause for each suppressed attempt. -/
structure Accounted (d₀ d : BargeInDetector) : Prop where
  cfg : d.cfg = d₀.cfg
  systemAecActive : d.systemAecActive = d₀.systemAecActive
  total : d.suppressedTotal = d.suppressedCooldown + d.suppressedAec

theorem Accounted.step {d₀ d : BargeInDetector} (h : Accounted d₀ d) (e : Evaluation) :
    Accounted d₀ (d.onSpeechStarted e.snap e.now e.apm).1 := by
  have htotal := h.total
  rcases d.onSpeechStarted_cases e with heq | heq | heq | ⟨-, -, heq⟩ <;> rw [heq]
  · exact h
  · exact ⟨h.cfg, h.systemAecActive, by dsimp only; omega⟩
  · exact ⟨h.cfg, h.systemAecActive, by dsimp only; omega⟩
  · exact ⟨h.cfg, h.systemAecActive, htotal⟩

theorem Accounted.hear {d₀ d : BargeInDetector} (h : Accounted d₀ d) (es : List Evaluation) :
    Accounted d₀ (hear es d).1 := by
  induction es generalizing d with
  | nil => exact h
  | cons e es ih => exact ih (h.step e)

/-- The gates do not read the counters. -/
theorem Passes.of_accounted {d₀ d : BargeInDetector} {e : Evaluation} (h : Accounted d₀ d)
    (hp : d.Passes e) : d₀.Passes e where
  speaking := hp.speaking
  turn := hp.turn
  cooledDown := h.cfg ▸ hp.cooledDown
  aec := by
    have haec := hp.aec
    rwa [aecOk_congr h.cfg h.systemAecActive] at haec

/-- Each interruption comes from an event that passed the gates. -/
theorem exists_passes_of_mem_hear {d₀ d : BargeInDetector} (h : Accounted d₀ d)
    (es : List Evaluation) {i : UserInterrupted} (hi : i ∈ (hear es d).2) :
    ∃ e ∈ es, d₀.Passes e ∧ i = { turn := e.snap.activeTurn, ts := e.now } := by
  induction es generalizing d with
  | nil => cases hi
  | cons e es ih =>
      rw [hear_cons] at hi
      rcases List.mem_append.mp hi with hfired | hrest
      · rcases d.onSpeechStarted_cases e with heq | heq | heq | ⟨hpasses, -, heq⟩ <;>
          rw [heq] at hfired
        · cases hfired
        · cases hfired
        · cases hfired
        · exact ⟨e, List.mem_cons_self, hpasses.of_accounted h, List.mem_singleton.mp hfired⟩
      · obtain ⟨e', he', hpasses, rfl⟩ := ih (h.step e) hrest
        exact ⟨e', List.mem_cons_of_mem e he', hpasses, rfl⟩

/-- The active turns never go down; where no turn is active there is nothing to compare. -/
def TurnsAscend (es : List Evaluation) : Prop :=
  es.Pairwise fun e e' => e.snap.activeTurn ≠ kNoTurn → e'.snap.activeTurn ≠ kNoTurn →
    e.snap.activeTurn ≤ e'.snap.activeTurn

/-- The turns that are fired for go up, from the one that is remembered. -/
theorem hear_turns_ascend {es : List Evaluation} (hascend : TurnsAscend es)
    {d : BargeInDetector}
    (hlast : ∀ e ∈ es, e.snap.activeTurn ≠ kNoTurn → d.lastFiredTurn ≤ e.snap.activeTurn) :
    (d.lastFiredTurn :: (hear es d).2.map (·.turn)).Pairwise (· < ·) := by
  induction es generalizing d with
  | nil => exact List.pairwise_singleton _ _
  | cons e es ih =>
      obtain ⟨hhead, htail⟩ := List.pairwise_cons.mp hascend
      have hrest : ∀ d' : BargeInDetector, d'.lastFiredTurn = d.lastFiredTurn →
          (d.lastFiredTurn :: (hear es d').2.map (·.turn)).Pairwise (· < ·) := by
        intro d' hsame
        rw [← hsame] at hlast ⊢
        exact ih htail fun e' he' => hlast e' (List.mem_cons_of_mem e he')
      rw [hear_cons]
      rcases d.onSpeechStarted_cases e with heq | heq | heq | ⟨hpasses, hother, heq⟩ <;> rw [heq]
      · exact hrest _ rfl
      · exact hrest _ rfl
      · exact hrest _ rfl
      · -- the turn becomes the one that is remembered, and all that follow are above it
        have hbelow := hlast e List.mem_cons_self hpasses.turn
        have hup : d.lastFiredTurn < e.snap.activeTurn := Nat.lt_of_le_of_ne hbelow hother
        have hafter : ((d.fire e).lastFiredTurn ::
            (hear es (d.fire e)).2.map (·.turn)).Pairwise (· < ·) :=
          ih htail fun e' he' hturn => hhead e' he' hpasses.turn hturn
        refine List.pairwise_cons.mpr ⟨fun t ht => ?_, hafter⟩
        rcases List.mem_cons.mp ht with rfl | ht
        · exact hup
        · exact Nat.lt_trans hup ((List.pairwise_cons.mp hafter).1 t ht)

/-- Whatever the machine, the clock and the echo canceller show a new detector, it interrupts
a turn at most once and only through its gates, and each attempt it suppresses has a cause. -/
theorem fires_once_through_gates (cfg : BargeInConfig) (systemAecActive : Bool)
    (es : List Evaluation) (hascend : TurnsAscend es) :
    let d : BargeInDetector := { cfg := cfg, systemAecActive := systemAecActive }
    ((hear es d).2.map (·.turn)).Nodup ∧
      (∀ i ∈ (hear es d).2, ∃ e ∈ es, i.turn = e.snap.activeTurn ∧ i.ts = e.now ∧
        e.snap.state = .speaking ∧
        cfg.coolDownAfterTurnMs ≤ (e.now - e.snap.enteredSpeakingAt).tdiv nsPerMs ∧
        (0 < cfg.coolDownAfterTurnMs ∨ e.snap.enteredSpeakingAt ≤ e.now →
          cfg.coolDownAfterTurnMs * nsPerMs ≤ e.now - e.snap.enteredSpeakingAt) ∧
        (d.aecOk e.apm).1 = true) ∧
      ∀ n, (hear (es.take n) d).1.suppressedTotal =
        (hear (es.take n) d).1.suppressedCooldown + (hear (es.take n) d).1.suppressedAec := by
  intro d
  have hfresh : Accounted d d := ⟨rfl, rfl, rfl⟩
  refine ⟨?_, fun i hi => ?_, fun n => (hfresh.hear (es.take n)).total⟩
  · have hturns := hear_turns_ascend (d := d) hascend fun e _ _ => Nat.zero_le _
    exact (List.pairwise_cons.mp hturns).2.imp fun hlt => Nat.ne_of_lt hlt
  · obtain ⟨e, he, hpasses, rfl⟩ := exists_passes_of_mem_hear hfresh es hi
    exact ⟨e, he, rfl, rfl, hpasses.speaking, hpasses.cooledDown, hpasses.elapsed, hpasses.aec⟩

/-- A turn that is heard too early, then twice, and the next turn with an idle machine between. -/
def twoTurns : List Evaluation :=
  let speaking : FsmSnapshot := { state := .speaking, activeTurn := 1, enteredSpeakingAt := 5 }
  [{ snap := speaking, now := 200000005, apm := none },
    { snap := speaking, now := 300000005, apm := some ⟨true, true⟩ },
    { snap := speaking, now := 310000005, apm := some ⟨true, true⟩ },
    { snap := {}, now := 400000000, apm := none },
    { snap := { speaking with activeTurn := 2 }, now := 900000000, apm := some ⟨true, false⟩ },
    { snap := { speaking with activeTurn := 2 }, now := 910000000, apm := some ⟨true, true⟩ }]

theorem fires_once_through_gates_twoTurns :
    (hear twoTurns {}).2.map (·.turn) = [1, 2] ∧
      ((hear twoTurns {}).2.map (·.turn)).Nodup ∧
      (hear (twoTurns.take 5) {}).1.suppressedTotal =
        (hear (twoTurns.take 5) {}).1.suppressedCooldown +
          (hear (twoTurns.take 5) {}).1.suppressedAec := by
  have hascend : TurnsAscend twoTurns := by
    unfold TurnsAscend
    decide
  have hall := fires_once_through_gates {} false twoTurns hascend
  exact ⟨by decide, hall.1, hall.2.2 5⟩

end Acva.Dialogue.BargeInDetector

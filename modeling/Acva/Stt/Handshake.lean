import Acva.Stt.BringUp

/-! # The handshake of a session

What `start` has passed at each place it can stand, and what the state of the client can be
there. A client that is stopped while `start` is under way can be brought back by it, so that
the order of the handshake is promised only where that does not happen.
-/

namespace Acva.Stt

open Acva.Audio Acva.Dialogue Acva.Runs

/-! ## How far the handshake has come -/

/-- What is passed before a stage is waited for. -/
def before : Stage → List Milestone
  | .gather => []
  | .connect => [.gathered, .answered]
  | .channel => [.gathered, .answered, .connected]

def untilConfigured : List Milestone :=
  [.gathered, .answered, .connected, .opened, .configured]

def handshake : List Milestone := untilConfigured ++ [.updated]

/-- The states the client can be in where `start` stands. -/
def StartPc.states : StartPc → List RealtimeState
  | .notStarted => [.idle]
  | .waiting _ | .checking _ | .posting | .configuring => [.connecting, .failed, .closed]
  | .sending | .awaitingUpdate => [.configuring, .ready, .failed, .closed]
  | .deciding => [.ready, .failed, .closed]
  | .givingUp => [.connecting, .configuring, .ready, .failed, .closed]
  | .returned true => [.ready, .closed]
  | .returned false => [.failed, .closed]

/-- The steps `start` has still to take at most. -/
def StartPc.left : StartPc → Nat
  | .notStarted | .waiting .gather => 11
  | .checking .gather => 10
  | .posting => 9
  | .waiting .connect => 8
  | .checking .connect => 7
  | .waiting .channel => 6
  | .checking .channel => 5
  | .configuring => 4
  | .sending => 3
  | .awaitingUpdate => 2
  | .deciding | .givingUp => 1
  | .returned _ => 0

/-- The session is not configured yet. -/
def Opening (state : RealtimeState) : Prop :=
  state = .connecting ∨ state = .failed

/-- It is configured, and ready as soon as the update is confirmed. -/
def Settling (state : RealtimeState) (trail : List Milestone) : Prop :=
  (state = .configuring ∨ state = .failed) ∧ trail = untilConfigured ∨
    state = .ready ∧ trail = handshake

/-- What `start` has passed where it stands, as long as nobody stops it. -/
def Along (state : RealtimeState) (trail : List Milestone) : StartPc → Prop
  | .notStarted => state = .idle ∧ trail = []
  | .waiting stage => Opening state ∧ trail = before stage
  | .checking stage =>
      Opening state ∧ trail <+: handshake ∧
        (state = .connecting → trail = before stage ++ [BringUp.milestoneOf stage])
  | .posting => Opening state ∧ trail = [.gathered]
  | .configuring => Opening state ∧ trail = [.gathered, .answered, .connected, .opened]
  | .sending | .awaitingUpdate => Settling state trail
  | .deciding => Settling state trail ∧ state ≠ .configuring
  | .givingUp => Opening state ∧ trail <+: handshake ∨ Settling state trail
  | .returned true => (state = .ready ∨ state = .closed) ∧ trail = handshake
  | .returned false => (state = .failed ∨ state = .closed) ∧ trail <+: handshake

theorem upTo_inOrder (stage : Stage) :
    before stage ++ [BringUp.milestoneOf stage] <+: handshake := by
  cases stage <;> decide

theorem before_inOrder (stage : Stage) : before stage <+: handshake :=
  (List.prefix_append _ _).trans (upTo_inOrder stage)

section Trail

variable {state : RealtimeState} {trail : List Milestone} {pc : StartPc}

theorem Settling.inOrder (h : Settling state trail) : trail <+: handshake := by
  rcases h with ⟨-, rfl⟩ | ⟨-, rfl⟩
  · exact List.prefix_append _ _
  · exact List.prefix_rfl

theorem Settling.fail (h : Settling state trail) (hready : state ≠ .ready) :
    Settling .failed trail := by
  rcases h with ⟨-, htrail⟩ | ⟨hstate, -⟩
  · exact .inl ⟨.inr rfl, htrail⟩
  · exact absurd hstate hready

theorem Settling.update (h : Settling .configuring trail) :
    Settling .ready (trail ++ [.updated]) := by
  rcases h with ⟨-, rfl⟩ | ⟨hstate, -⟩
  · exact .inr ⟨rfl, rfl⟩
  · cases hstate

theorem Along.inOrder (h : Along state trail pc) : trail <+: handshake := by
  cases pc with
  | notStarted => exact h.2 ▸ List.nil_prefix
  | waiting stage => exact h.2 ▸ before_inOrder stage
  | checking stage => exact h.2.1
  | posting => exact h.2 ▸ by decide
  | configuring => exact h.2 ▸ by decide
  | sending => exact Settling.inOrder h
  | awaitingUpdate => exact Settling.inOrder h
  | deciding => exact h.1.inOrder
  | givingUp => exact h.elim And.right Settling.inOrder
  | returned ok =>
      cases ok with
      | true => exact h.2 ▸ List.prefix_rfl
      | false => exact h.2

/-- Only the whole handshake makes the session ready. -/
theorem Along.ready (h : Along .ready trail pc) : trail = handshake := by
  have hsettled : Settling .ready trail → trail = handshake := by
    rintro (⟨hstate | hstate, -⟩ | ⟨-, htrail⟩)
    · cases hstate
    · cases hstate
    · exact htrail
  have hopening : ¬ Opening .ready := by
    rintro (hstate | hstate) <;> cases hstate
  cases pc with
  | notStarted => cases h.1
  | waiting stage => exact absurd h.1 hopening
  | checking stage => exact absurd h.1 hopening
  | posting => exact absurd h.1 hopening
  | configuring => exact absurd h.1 hopening
  | sending => exact hsettled h
  | awaitingUpdate => exact hsettled h
  | deciding => exact hsettled h.1
  | givingUp => exact h.elim (fun hp => absurd hp.1 hopening) hsettled
  | returned ok =>
      cases ok with
      | true => exact h.2
      | false => exact h.1.elim nofun nofun

/-- The connection is lost. -/
theorem Along.fail (h : Along state trail pc) (hpc : pc ≠ .notStarted) (hready : state ≠ .ready)
    (hclosed : state ≠ .closed) : Along .failed trail pc := by
  cases pc with
  | notStarted => exact absurd rfl hpc
  | waiting stage => exact ⟨.inr rfl, h.2⟩
  | checking stage => exact ⟨.inr rfl, h.2.1, nofun⟩
  | posting => exact ⟨.inr rfl, h.2⟩
  | configuring => exact ⟨.inr rfl, h.2⟩
  | sending => exact Settling.fail h hready
  | awaitingUpdate => exact Settling.fail h hready
  | deciding => exact ⟨h.1.fail hready, nofun⟩
  | givingUp => exact .inl ⟨.inr rfl, Along.inOrder h⟩
  | returned ok =>
      cases ok with
      | true => exact absurd h.1 (not_or.mpr ⟨hready, hclosed⟩)
      | false => exact ⟨.inl rfl, h.2⟩

/-- The server confirms the update. -/
theorem Along.update (h : Along .configuring trail pc) : Along .ready (trail ++ [.updated]) pc := by
  have hopening : ¬ Opening .configuring := by
    rintro (hstate | hstate) <;> cases hstate
  cases pc with
  | notStarted => cases h.1
  | waiting stage => exact absurd h.1 hopening
  | checking stage => exact absurd h.1 hopening
  | posting => exact absurd h.1 hopening
  | configuring => exact absurd h.1 hopening
  | sending => exact Settling.update h
  | awaitingUpdate => exact Settling.update h
  | deciding => exact absurd rfl h.2
  | givingUp => exact .inr (h.elim (fun hp => absurd hp.1 hopening) Settling.update)
  | returned ok =>
      cases ok with
      | true => exact h.1.elim nofun nofun
      | false => exact h.1.elim nofun nofun

/-- The client is stopped once `start` has returned. -/
theorem Along.close {ok : Bool} (h : Along state trail (.returned ok)) :
    Along .closed trail (.returned ok) := by
  cases ok with
  | true => exact ⟨.inr rfl, h.2⟩
  | false => exact ⟨.inr rfl, h.2⟩

/-- A session is ready once it has been configured and its update confirmed, stopped or not. -/
def Confirmed (state : RealtimeState) (trail : List Milestone) : Prop :=
  (state = .configuring → .configured ∈ trail) ∧
    (state = .ready → .configured ∈ trail ∧ .updated ∈ trail)

theorem Confirmed.append (h : Confirmed state trail) (passed : List Milestone) :
    Confirmed state (trail ++ passed) :=
  ⟨fun hstate => List.mem_append_left _ (h.1 hstate),
    fun hstate => (h.2 hstate).imp (List.mem_append_left _) (List.mem_append_left _)⟩

theorem confirmed_of_ne (hconfiguring : state ≠ .configuring) (hready : state ≠ .ready) :
    Confirmed state trail :=
  ⟨fun hstate => absurd hstate hconfiguring, fun hstate => absurd hstate hready⟩

end Trail

/-! ## The invariant -/

namespace BringUp

variable {ρ : Type} {soxr : Soxr ρ} {s s' : BringUp ρ} {l : BringUpLedger}

/-- Where the session can be ready: its update is on the way, and `start` has not failed. -/
def canBegin : StartPc → Bool
  | .sending | .awaitingUpdate | .deciding | .givingUp | .returned true => true
  | _ => false

structure BringUpInv (w : BringUp ρ × BringUpLedger) : Prop where
  place : w.1.client.state ∈ w.1.pc.states
  starts : w.2.starts = if w.1.pc = .notStarted then 0 else 1
  steps : w.2.steps + w.1.pc.left ≤ 11
  along : w.2.interrupted = false → Along w.1.client.state w.2.trail w.1.pc
  confirmed : Confirmed w.1.client.state w.2.trail
  begun : ∀ b ∈ w.2.begun, b.state = .ready ∧ canBegin b.pc = true ∧
    .configured ∈ b.passed ∧ .updated ∈ b.passed
  configured : w.2.interrupted = false → ∀ b ∈ w.2.begun, b.passed = handshake
  closed : w.1.client.state = .closed → w.2.interrupted = true ∨ w.2.stopped = true
  stopped : w.2.stopped = true → w.1.client.state = .closed ∧ w.1.pc.isReturned = true

theorem canBegin_of_ready {pc : StartPc} (h : RealtimeState.ready ∈ pc.states) :
    canBegin pc = true := by
  cases pc with
  | returned ok => cases ok <;> simp [StartPc.states, canBegin] at h ⊢
  | _ => simp [StartPc.states, canBegin] at h ⊢

/-- What leaves the place and the state of the client alone keeps the invariant. -/
theorem BringUpInv.keep (hi : BringUpInv (s, l)) (hpc : s'.pc = s.pc)
    (hstate : s'.client.state = s.client.state) : BringUpInv (s', l) where
  place := by
    rw [hpc, hstate]
    exact hi.place
  starts := by
    rw [hpc]
    exact hi.starts
  steps := by
    rw [hpc]
    exact hi.steps
  along := by
    rw [hpc, hstate]
    exact hi.along
  confirmed := by
    rw [hstate]
    exact hi.confirmed
  begun := hi.begun
  configured := hi.configured
  closed := by
    rw [hstate]
    exact hi.closed
  stopped := by
    rw [hpc, hstate]
    exact hi.stopped

/-! ## Steps of the start thread -/

/-- `start` is under way, and the step brings it nearer to its end. -/
theorem Starts.goesOn {passed : List Milestone} (h : Starts s s' passed) :
    s.pc ≠ .notStarted ∧ s.pc.isReturned = false ∧ s'.pc ≠ .notStarted ∧
      s'.pc.left + 1 ≤ s.pc.left := by
  cases h with
  | come stage hpc hdone =>
      rw [hpc]
      cases stage <;> exact ⟨nofun, rfl, nofun, Nat.le_refl _⟩
  | wake stage hpc hfailed =>
      rw [hpc]
      cases stage <;> exact ⟨nofun, rfl, nofun, Nat.le_refl _⟩
  | expire hpc =>
      rcases hpc with ⟨stage, hpc⟩ | hpc
      · rw [hpc]
        cases stage <;> exact ⟨nofun, rfl, nofun, by simp [StartPc.left]⟩
      · rw [hpc]
        exact ⟨nofun, rfl, nofun, by simp [StartPc.left]⟩
  | gone stage hpc hfailed =>
      rw [hpc]
      cases stage <;> exact ⟨nofun, rfl, nofun, by simp [StartPc.left]⟩
  | next stage hpc hstate =>
      rw [hpc]
      cases stage <;> exact ⟨nofun, rfl, nofun, Nat.le_refl _⟩
  | _ => simp [*, StartPc.isReturned, StartPc.left]

theorem Starts.place {passed : List Milestone} (h : Starts s s' passed)
    (hplace : s.client.state ∈ s.pc.states) : s'.client.state ∈ s'.pc.states := by
  cases h with
  | come stage hpc hdone =>
      rw [hpc] at hplace
      exact hplace
  | wake stage hpc hfailed =>
      rw [hpc] at hplace
      exact hplace
  | expire hpc =>
      have hbefore : s.client.state ∈ [.connecting, .failed, .closed] := by
        rcases hpc with ⟨stage, hpc⟩ | hpc <;> rw [hpc] at hplace <;> exact hplace
      simp only [List.mem_cons, List.not_mem_nil, or_false] at hbefore
      rcases hbefore with hstate | hstate | hstate <;> simp [StartPc.states, hstate]
  | gone stage hpc hfailed => simp [StartPc.states, hfailed]
  | next stage hpc hstate =>
      rw [hpc] at hplace
      cases stage <;> exact hplace
  | answer hpc =>
      rw [hpc] at hplace
      exact hplace
  | configure hpc => exact List.mem_cons_self
  | send hpc =>
      rw [hpc] at hplace
      exact hplace
  | settle hpc hstate =>
      rcases hstate with hready | hfailed
      · simp [StartPc.states, hready]
      · simp [StartPc.states, hfailed]
  | unconfirmed hpc =>
      rw [hpc] at hplace
      exact List.mem_cons_of_mem _ hplace
  | conclude hpc =>
      rw [hpc] at hplace
      by_cases hready : s.client.state = .ready
      · simp [hready, StartPc.states]
      · simpa [hready, StartPc.states] using hplace
  | giveUp hpc => exact List.mem_cons_self

/-- The start thread closes nothing. -/
theorem Starts.closed {passed : List Milestone} (h : Starts s s' passed)
    (hclosed : s'.client.state = .closed) : s.client.state = .closed := by
  cases h with
  | configure hpc => cases hclosed
  | giveUp hpc => cases hclosed
  | _ => exact hclosed

/-- It takes the session to `Configuring` at its milestone, and never to `Ready`. -/
theorem Starts.confirmed {passed : List Milestone} (h : Starts s s' passed)
    (hc : Confirmed s.client.state l.trail) :
    Confirmed s'.client.state (l.trail ++ passed) := by
  cases h with
  | configure hpc => exact ⟨fun _ => List.mem_append_right _ List.mem_cons_self, nofun⟩
  | giveUp hpc => exact confirmed_of_ne nofun nofun
  | _ => exact hc.append _

theorem Starts.along {passed : List Milestone} (h : Starts s s' passed)
    (ha : Along s.client.state l.trail s.pc) :
    Along s'.client.state (l.trail ++ passed) s'.pc := by
  have hsofar := ha.inOrder
  cases h with
  | come stage hpc hdone =>
      rw [hpc] at ha
      rw [ha.2]
      exact ⟨ha.1, upTo_inOrder stage, fun _ => rfl⟩
  | wake stage hpc hfailed =>
      rw [hpc] at ha
      rw [List.append_nil]
      refine ⟨ha.1, hsofar, fun hstate => ?_⟩
      rw [hfailed] at hstate
      cases hstate
  | expire hpc =>
      rw [List.append_nil]
      refine .inl ⟨?_, hsofar⟩
      rcases hpc with ⟨stage, hpc⟩ | hpc <;> rw [hpc] at ha <;> exact ha.1
  | gone stage hpc hfailed =>
      rw [List.append_nil]
      exact ⟨.inl hfailed, hsofar⟩
  | next stage hpc hstate =>
      -- the state is not `Failed`, so that the wait came through by itself
      rw [hpc] at ha
      have htrail := ha.2.2 (ha.1.resolve_right hstate)
      rw [htrail, List.append_nil]
      cases stage <;> exact ⟨ha.1, rfl⟩
  | answer hpc =>
      rw [hpc] at ha
      rw [ha.2]
      exact ⟨ha.1, rfl⟩
  | configure hpc =>
      rw [hpc] at ha
      rw [ha.2]
      exact .inl ⟨.inl rfl, rfl⟩
  | send hpc =>
      rw [hpc] at ha
      rw [List.append_nil]
      exact ha
  | settle hpc hstate =>
      rw [hpc] at ha
      rw [List.append_nil]
      refine ⟨ha, fun hconfiguring => ?_⟩
      change s.client.state = .configuring at hconfiguring
      rw [hconfiguring] at hstate
      exact hstate.elim nofun nofun
  | unconfirmed hpc =>
      rw [hpc] at ha
      rw [List.append_nil]
      exact .inr ha
  | conclude hpc =>
      rw [hpc] at ha
      rw [List.append_nil]
      obtain ⟨hsettling, hconfiguring⟩ := ha
      rcases hsettling with ⟨hstate, -⟩ | ⟨hready, htrail⟩
      · have hfailed := hstate.resolve_left hconfiguring
        have hnot : decide (s.client.state = .ready) = false := by rw [hfailed]; rfl
        rw [hnot]
        exact ⟨.inl hfailed, hsofar⟩
      · have hyes : decide (s.client.state = .ready) = true := by rw [hready]; rfl
        rw [hyes]
        exact ⟨.inl hready, htrail⟩
  | giveUp hpc =>
      rw [List.append_nil]
      exact ⟨.inl rfl, hsofar⟩

theorem BringUpInv.starter {passed : List Milestone} (hi : BringUpInv (s, l))
    (h : Starts s s' passed) :
    BringUpInv (s', { l with steps := l.steps + 1, trail := l.trail ++ passed }) := by
  obtain ⟨hstarted, hunder, hstarted', hleft⟩ := h.goesOn
  refine ⟨h.place hi.place, ?_, ?_, fun hint => h.along (hi.along hint),
    h.confirmed hi.confirmed, hi.begun, hi.configured,
    fun hclosed => hi.closed (h.closed hclosed), fun hstopped => ?_⟩
  · have hone := hi.starts
    rw [if_neg hstarted] at hone
    rw [if_neg hstarted']
    exact hone
  · have hsteps := hi.steps
    dsimp only at hsteps ⊢
    omega
  · have hreturned := (hi.stopped hstopped).2
    rw [hunder] at hreturned
    cases hreturned

/-! ## The other threads -/

theorem BringUpInv.start (hi : BringUpInv (s, l)) (hidle : s.client.state = .idle) :
    BringUpInv ({ s.onState .connecting with pc := .waiting .gather },
      { l with starts := l.starts + 1 }) := by
  have hpc : s.pc = .notStarted := by
    have hplace := hi.place
    dsimp only at hplace
    rw [hidle] at hplace
    cases hpc : s.pc with
    | notStarted => rfl
    | returned ok => cases ok <;> simp [hpc, StartPc.states] at hplace
    | _ => simp [hpc, StartPc.states] at hplace
  refine ⟨List.mem_cons_self, ?_, ?_, fun hint => ⟨.inl rfl, ?_⟩, confirmed_of_ne nofun nofun,
    hi.begun, hi.configured, nofun, fun hstopped => ?_⟩
  · have hnone := hi.starts
    rw [if_pos hpc] at hnone
    rw [if_neg nofun]
    exact congrArg (· + 1) hnone
  · have hsteps := hi.steps
    rw [hpc] at hsteps
    exact hsteps
  · have ha := hi.along hint
    rw [hpc] at ha
    exact ha.2
  · have hclosed := (hi.stopped hstopped).1
    dsimp only at hclosed
    rw [hidle] at hclosed
    cases hclosed

theorem BringUpInv.connectionLost (hi : BringUpInv (s, l)) (hpc : s.pc ≠ .notStarted)
    (peer : PeerState) :
    BringUpInv ({ s with pcState := peer, client := s.client.connectionLost }, l) := by
  unfold RealtimeSttClient.connectionLost
  split
  next hstate =>
    obtain ⟨hready, hclosed⟩ := hstate
    refine ⟨?_, hi.starts, hi.steps, fun hint => (hi.along hint).fail hpc hready hclosed,
      confirmed_of_ne nofun nofun, hi.begun, hi.configured, nofun,
      fun hstopped => absurd (hi.stopped hstopped).1 hclosed⟩
    have hplace := hi.place
    dsimp only at hplace ⊢
    cases hwhere : s.pc with
    | notStarted => exact absurd hwhere hpc
    | returned ok => cases ok <;> simp_all [StartPc.states]
    | _ => simp [StartPc.states]
  next => exact hi.keep rfl rfl

/-- The confirmation counts only while the session is being configured. -/
theorem BringUpInv.sessionUpdated (hi : BringUpInv (s, l)) (hpc : s.pc ≠ .notStarted)
    (pool : TokenPool) :
    BringUpInv ({ s with client := (s.client.dispatch pool .sessionUpdated).1 },
      noteBringUp l s (.onMessage pool .sessionUpdated)) := by
  simp only [RealtimeSttClient.dispatch, RealtimeSttClient.onSessionUpdated, noteBringUp]
  by_cases hstate : s.client.state = .configuring
  · rw [if_pos hstate, if_pos ⟨hpc, hstate⟩]
    have hconfigured : .configured ∈ l.trail := hi.confirmed.1 hstate
    refine ⟨?_, hi.starts, hi.steps, fun hint => ?_,
      ⟨fun hbefore => (by cases hbefore), fun _ => ⟨List.mem_append_left _ hconfigured,
        List.mem_append_right _ List.mem_cons_self⟩⟩, hi.begun, hi.configured,
      fun hclosed => (by cases hclosed), fun hstopped => ?_⟩
    · have hplace := hi.place
      dsimp only at hplace ⊢
      rw [hstate] at hplace
      cases hwhere : s.pc with
      | returned ok => cases ok <;> simp [hwhere, StartPc.states] at hplace
      | _ => simp [hwhere, StartPc.states] at hplace ⊢
    · have ha := hi.along hint
      dsimp only at ha
      rw [hstate] at ha
      exact ha.update
    · have hclosed := (hi.stopped hstopped).1
      dsimp only at hclosed
      rw [hstate] at hclosed
      cases hclosed
  · rw [if_neg hstate, if_neg fun h => hstate h.2]
    exact hi

theorem BringUpInv.begin (hi : BringUpInv (s, l)) (hready : s.client.state = .ready) :
    BringUpInv (s, { l with begun := l.begun ++ [⟨s.pc, s.client.state, l.trail⟩] }) where
  place := hi.place
  starts := hi.starts
  steps := hi.steps
  along := hi.along
  confirmed := hi.confirmed
  begun b hb := by
    rcases List.mem_append.mp hb with hbefore | hnow
    · exact hi.begun b hbefore
    · have hplace := hi.place
      dsimp only at hplace
      rw [List.mem_singleton.mp hnow]
      exact ⟨hready, canBegin_of_ready (hready ▸ hplace), hi.confirmed.2 hready⟩
  configured hint b hb := by
    rcases List.mem_append.mp hb with hbefore | hnow
    · exact hi.configured hint b hbefore
    · have halong := hi.along hint
      dsimp only at halong
      rw [hready] at halong
      rw [List.mem_singleton.mp hnow]
      exact halong.ready
  closed := hi.closed
  stopped := hi.stopped

theorem BringUpInv.stop (hi : BringUpInv (s, l)) :
    BringUpInv ({ s with client := s.client.stop }, noteBringUp l s .stop) := by
  have hplace := hi.place
  dsimp only at hplace
  simp only [noteBringUp]
  split
  next hpc =>
    rw [hpc] at hplace
    have hidle : s.client.state = .idle := List.mem_singleton.mp hplace
    have hsame : s.client.stop = s.client := if_pos (.inl hidle)
    rw [hsame]
    exact hi
  next hpc =>
    have hidle : s.client.state ≠ .idle := by
      intro hidle
      rw [hidle] at hplace
      cases hwhere : s.pc with
      | notStarted => exact hpc hwhere
      | returned ok => cases ok <;> simp [hwhere, StartPc.states] at hplace
      | _ => simp [hwhere, StartPc.states] at hplace
    have hclosed : s.client.stop.state = .closed := by
      unfold RealtimeSttClient.stop
      split
      next hstate => exact hstate.resolve_left hidle
      next => rfl
    have hplace' : RealtimeState.closed ∈ s.pc.states := by
      cases hwhere : s.pc with
      | notStarted => exact absurd hwhere hpc
      | returned ok => cases ok <;> simp [StartPc.states]
      | _ => simp [StartPc.states]
    split
    next hreturned =>
      refine ⟨?_, hi.starts, hi.steps, fun hint => ?_, hclosed ▸ confirmed_of_ne nofun nofun,
        hi.begun, hi.configured, fun _ => .inr rfl, fun _ => ⟨hclosed, hreturned⟩⟩
      · dsimp only
        rw [hclosed]
        exact hplace'
      · have ha := hi.along hint
        dsimp only at ha ⊢
        rw [hclosed]
        cases hwhere : s.pc with
        | returned ok =>
            rw [hwhere] at ha
            exact ha.close
        | _ => simp [hwhere, StartPc.isReturned] at hreturned
    next hunder =>
      refine ⟨?_, hi.starts, hi.steps, nofun, hclosed ▸ confirmed_of_ne nofun nofun, hi.begun,
        nofun, fun _ => .inl rfl, fun hstopped => ?_⟩
      · dsimp only
        rw [hclosed]
        exact hplace'
      · exact absurd (hi.stopped hstopped).2 hunder

theorem BringUpInv.step {w w' : BringUp ρ × BringUpLedger} {a : BringUpAction}
    (hi : BringUpInv w) (h : watch (step soxr) noteBringUp w a = some w') : BringUpInv w' := by
  obtain ⟨s, l⟩ := w
  obtain ⟨s', l'⟩ := w'
  obtain ⟨hstep, rfl⟩ := watch_eq_some.mp h
  dsimp only at hstep
  cases a with
  | start =>
      simp only [BringUp.step] at hstep
      by_cases hidle : s.client.state = .idle
      · rw [if_pos hidle] at hstep
        cases hstep
        simp only [noteBringUp, if_pos hidle]
        exact hi.start hidle
      · rw [if_neg hidle] at hstep
        cases hstep
        simp only [noteBringUp, if_neg hidle]
        exact hi
  | starter choice => exact hi.starter (starter_eq_some hstep)
  | onGatheringComplete =>
      simp only [BringUp.step] at hstep
      split at hstep
      next => cases hstep
      next =>
        cases hstep
        exact hi.keep rfl rfl
  | onStateChange peer =>
      simp only [BringUp.step] at hstep
      split at hstep
      next => cases hstep
      next hpc =>
        cases hstep
        split
        · exact hi.connectionLost hpc peer
        · exact hi.keep rfl rfl
  | onOpen =>
      simp only [BringUp.step] at hstep
      split at hstep
      next => cases hstep
      next =>
        cases hstep
        exact hi.keep rfl rfl
  | onMessage pool e =>
      simp only [BringUp.step] at hstep
      split at hstep
      next => cases hstep
      next hpc =>
        cases hstep
        cases e with
        | sessionUpdated => exact hi.sessionUpdated hpc pool
        | _ => exact hi.keep rfl (s.client.dispatch_state pool _ nofun)
  | beginUtterance turn cancel cb =>
      cases hstep
      have hstate := s.client.beginUtterance_state soxr turn cancel cb
      simp only [noteBringUp]
      split
      next hready => exact (hi.begin hready).keep rfl hstate
      next => exact hi.keep rfl hstate
  | pushAudio pool samples =>
      cases hstep
      exact hi.keep rfl (s.client.pushAudio_state soxr pool samples)
  | endUtterance =>
      cases hstep
      exact hi.keep rfl (s.client.endUtterance_state soxr)
  | stop =>
      cases hstep
      exact hi.stop

/-! ## Runs -/

theorem initial_bringUpInv : BringUpInv (({}, {}) : BringUp ρ × BringUpLedger) where
  place := List.mem_cons_self
  starts := rfl
  steps := Nat.le_refl _
  along _ := ⟨rfl, rfl⟩
  confirmed := confirmed_of_ne nofun nofun
  begun := nofun
  configured := nofun
  closed := nofun
  stopped := nofun

/-- How the session comes up. What is said of the handshake holds unless the client is stopped
while `start` is under way. -/
structure BringsUp (s : BringUp ρ) (l : BringUpLedger) : Prop where
  once : l.starts ≤ 1
  returns : l.steps ≤ 11
  inOrder : l.interrupted = false → l.trail <+: handshake
  ready : l.interrupted = false → s.client.state = .ready → l.trail = handshake
  succeeds : l.interrupted = false → s.pc = .returned true →
    l.trail = handshake ∧ (s.client.state = .ready ∨ l.stopped = true)
  fails : s.pc = .returned false → s.client.state = .failed ∨ s.client.state = .closed
  begun : ∀ b ∈ l.begun, b.state = .ready ∧ canBegin b.pc = true ∧
    .configured ∈ b.passed ∧ .updated ∈ b.passed
  configured : l.interrupted = false → ∀ b ∈ l.begun, b.passed = handshake
  stopped : l.stopped = true → s.client.state = .closed

theorem BringUpInv.bringsUp (hi : BringUpInv (s, l)) : BringsUp s l where
  once := by
    have hstarts := hi.starts
    dsimp only at hstarts
    rw [hstarts]
    split <;> omega
  returns := by
    have hsteps := hi.steps
    dsimp only at hsteps
    omega
  inOrder hint := (hi.along hint).inOrder
  ready hint hready := by
    have ha := hi.along hint
    dsimp only at ha
    rw [hready] at ha
    exact ha.ready
  succeeds hint hpc := by
    have ha := hi.along hint
    dsimp only at ha
    rw [hpc] at ha
    refine ⟨ha.2, ha.1.imp_right fun hclosed => (hi.closed hclosed).resolve_left ?_⟩
    rw [hint]
    exact nofun
  fails hpc := by
    have hplace := hi.place
    dsimp only at hplace
    rw [hpc] at hplace
    simpa [StartPc.states] using hplace
  begun := hi.begun
  configured := hi.configured
  stopped h := (hi.stopped h).1

/-- The stages as they come through, up to the data channel. -/
def untilOpen : List BringUpAction :=
  [.start, .onGatheringComplete, .starter .comesThrough, .starter .comesThrough,
    .starter .comesThrough, .onStateChange .connected, .onOpen, .starter .comesThrough,
    .starter .comesThrough, .starter .comesThrough, .starter .comesThrough]

/-- The update is confirmed, and an utterance begins before `start` has returned. -/
def confirmed : List BringUpAction :=
  [.starter .comesThrough, .starter .comesThrough, .onMessage {} .sessionUpdated,
    .starter .comesThrough, .beginUtterance 1 none {}, .starter .comesThrough]

/-- A stop between the last look at the state and the configuring is undone by `start`. -/
example : (run (watch (step Soxr.passThrough) noteBringUp) ({}, {})
    (untilOpen ++ .stop :: confirmed)).map (fun w => (w.1.pc, w.1.client.state)) =
      some (.returned true, .ready) := by decide

end BringUp

end Acva.Stt

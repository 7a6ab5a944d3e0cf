import Acva.Orchestrator.DialogueStack

/-! # The turn ids of the LLM runs

The manager adopts whatever id the machine's snapshot shows. The machine keeps
its active turn after the turn is over, so two runs share an id when no turn was
begun between their two questions; nothing else makes them share one.
-/

namespace Acva.Dialogue.Manager

/-- The turns of the `LlmStarted` events among `es`. -/
def startedIn (es : List Event) : List TurnId :=
  es.filterMap fun
    | .llmStarted e => some e.turn
    | _ => none

/-- The turns whose `LlmStarted` is on the bus, oldest first. -/
def startedTurns (m : Manager) : List TurnId := startedIn m.published

/-- The turn the run at hand is bound to publish `LlmStarted` with, once it is settled. -/
def inFlightTurn (m : Manager) : List TurnId :=
  match m.io with
  | .asked _ id => if id = kNoTurn then [] else [id]
  | .building _ => [m.active.id]
  | .hooked _ => [m.active.id]
  | _ => []

/-- The turns of all runs so far, the one at hand included. -/
def runTurns (m : Manager) : List TurnId := m.startedTurns ++ m.inFlightTurn

theorem startedIn_append (as bs : List Event) :
    startedIn (as ++ bs) = startedIn as ++ startedIn bs := List.filterMap_append

theorem startedIn_of_replyEvents {t : TurnId} {es : List Event}
    (h : ∀ e ∈ es, Reply.ReplyEvent t e) : startedIn es = [] := by
  refine List.filterMap_eq_nil_iff.mpr fun e he => ?_
  have hkind := h e he
  cases e with
  | llmStarted e => exact hkind.elim
  | _ => rfl

/-! ## The manager's steps -/

theorem cancelActive_runTurns (t : TurnId) (m : Manager) :
    (m.cancelActive t).runTurns = m.runTurns := by
  unfold cancelActive
  split
  · rfl
  · split
    · rfl
    · simp only [runTurns, startedTurns, inFlightTurn, TurnContext.cancelToken_id]

theorem onEvent_runTurns (now : TimePoint) (gateOpen : Bool) (e : Event) (m : Manager) :
    (m.onEvent now gateOpen e).runTurns = m.runTurns := by
  cases e with
  | finalTranscript e =>
      simp only [onEvent, onFinalTranscript]
      split
      · simp [publish, runTurns, startedTurns, startedIn, inFlightTurn]
      · split
        · simp [publish, runTurns, startedTurns, startedIn, inFlightTurn]
        · rfl
  | userInterrupted e => exact cancelActive_runTurns e.turn m
  | cancelGeneration e => exact cancelActive_runTurns e.turn m
  | _ => rfl

theorem takeJob_runTurns {m m' : Manager} (h : m.takeJob = some m') :
    m'.runTurns = m.runTurns := by
  unfold takeJob at h
  split at h
  next hio hp =>
    cases h
    simp [runTurns, startedTurns, inFlightTurn, hio]
  next hio hp =>
    split at h
    · cases h
      simp [runTurns, startedTurns, inFlightTurn, hio]
    · cases h
  next => cases h

/-- Asking the provider binds the run to the id it answers with. -/
theorem askProvider_runTurns {m m' : Manager} {id : TurnId} (h : m.askProvider id = some m') :
    m'.runTurns = m.runTurns ++ if id = kNoTurn then [] else [id] := by
  unfold askProvider at h
  split at h
  next hio =>
    cases h
    simp [runTurns, startedTurns, inFlightTurn, hio]
  next => cases h

/-- Fixing the turn keeps the id asked for, or mints the next one. -/
theorem fixTurn_runTurns {m m' : Manager} {turns turns' : TurnFactory}
    (h : m.fixTurn turns = some (m', turns')) :
    m'.runTurns = m.runTurns ∧ turns' = turns ∨
      m'.runTurns = m.runTurns ++ [turns.next] ∧ turns' = turns.mint.2 := by
  unfold fixTurn at h
  split at h
  next job id hio =>
    split at h
    next hid =>
      cases h
      left
      simp [runTurns, startedTurns, inFlightTurn, hio, hid]
    next hid =>
      cases h
      right
      simp [runTurns, startedTurns, inFlightTurn, hio, not_not.mp hid]
  next => cases h

theorem runHook_runTurns {m m' : Manager} {t : TurnId} (h : m.runHook = some (m', t)) :
    m'.runTurns = m.runTurns := by
  unfold runHook at h
  split at h
  next hio =>
    cases h
    simp [runTurns, startedTurns, inFlightTurn, hio]
  next => cases h

theorem startStream_runTurns {m m' : Manager} (h : m.startStream = some m') :
    m'.runTurns = m.runTurns := by
  unfold startStream at h
  split at h
  next hio =>
    cases h
    simp [runTurns, startedTurns, startedIn, inFlightTurn, hio, publish]
  next => cases h

theorem setReply_runTurns {m : Manager} {r r' : Reply} (hio : m.io = .streaming r)
    (h : Reply.Continues r r') : (m.setReply r r').runTurns = m.runTurns := by
  obtain ⟨es, hes, hkind⟩ := h.published
  simp only [runTurns, startedTurns, inFlightTurn, setReply, hio, hes, List.drop_left,
    startedIn_append, startedIn_of_replyEvents hkind, List.append_nil]

theorem onToken_runTurns {m m' : Manager} {delta : Bytes} (h : m.onToken delta = some m') :
    m'.runTurns = m.runTurns := by
  unfold onToken at h
  split at h
  next r hio =>
    cases h
    simp only [tokenCallback, hio]
    exact setReply_runTurns hio (Reply.onToken_continues delta r)
  next => cases h

theorem finishStream_runTurns {m m' : Manager} {n : Nat} (h : m.finishStream n = some m') :
    m'.runTurns = m.runTurns := by
  unfold finishStream at h
  split at h
  next r hio =>
    cases h
    have hdone := setReply_runTurns hio (Reply.onFinished_continues r)
    rw [← hdone]
    simp [runTurns, startedTurns, startedIn, inFlightTurn, publish, setReply, finishCallback,
      endRun, hio]
  next => cases h

theorem abortStream_runTurns {m m' : Manager} (h : m.abortStream = some m') :
    m'.runTurns = m.runTurns := by
  unfold abortStream at h
  split at h
  next r hio =>
    cases h
    have hdone := setReply_runTurns hio (Reply.onFinished_continues r)
    rw [← hdone]
    simp [runTurns, startedTurns, inFlightTurn, setReply, finishCallback, endRun, hio]
  next => cases h

end Acva.Dialogue.Manager

namespace Acva.Orchestrator.DialogueStack

open Acva.Dialogue Acva.Runs

/-! ## What a step does to the turns -/

/-- A step that neither asks for a turn, nor mints one for a run, nor begins one. -/
structure KeepsTurns (s s' : DialogueStack) : Prop where
  runTurns : s'.manager.runTurns = s.manager.runTurns
  active : s'.host.fsm.active.id = s.host.fsm.active.id
  next_le : s.host.turns.next ≤ s'.host.turns.next

/-- The machine begins the turn that the factory hands out next. -/
def beginsTurn (s : DialogueStack) : StackAction → Bool
  | .fsmEvent _ (.speechStarted _) => s.host.fsm.startsTurn
  | _ => false

/-- The steps that move the turns, each with all it does to them. -/
inductive TurnStep (s : DialogueStack) (a : StackAction) (s' : DialogueStack) : Prop
  | keeps (hask : a ≠ .askProvider) (hbegin : s.beginsTurn a = false) (h : KeepsTurns s s')
  | asks (hask : a = .askProvider) (hhost : s'.host = s.host)
      (hrun : s'.manager.runTurns =
        s.manager.runTurns ++ if s.host.fsm.active.id = kNoTurn then [] else [s.host.fsm.active.id])
  | mints (hask : a ≠ .askProvider) (hbegin : s.beginsTurn a = false)
      (hactive : s'.host.fsm = s.host.fsm) (hnext : s'.host.turns.next = s.host.turns.next + 1)
      (hrun : s'.manager.runTurns = s.manager.runTurns ++ [s.host.turns.next])
  | begins (hask : a ≠ .askProvider) (hbegin : s.beginsTurn a = true)
      (hactive : s'.host.fsm.active.id = s.host.turns.next)
      (hnext : s'.host.turns.next = s.host.turns.next + 1)
      (hrun : s'.manager.runTurns = s.manager.runTurns)

theorem keepsTurns_onManager {s : DialogueStack} {m : Manager}
    (h : m.runTurns = s.manager.runTurns) : KeepsTurns s (s.onManager m) :=
  ⟨h, rfl, Nat.le_refl _⟩

theorem step_turns {s s' : DialogueStack} {a : StackAction} (h : s.step a = some s') :
    TurnStep s a s' := by
  cases a with
  | fsmStart now =>
      simp only [step] at h
      split at h
      · cases h
        exact .keeps (by simp) rfl ⟨rfl, by simp [FsmHost.start], Nat.le_refl _⟩
      · cases h
  | fsmEvent now e =>
      cases h
      rcases FsmHost.onEvent_turn_cases s.host now e with ⟨hid, hturns⟩ | ⟨hk, hs, hid, hturns⟩
      · cases hb : s.beginsTurn (.fsmEvent now e) with
        | false => exact .keeps (by simp) hb ⟨rfl, hid, Nat.le_of_eq (by simp only [hturns])⟩
        | true =>
            -- a beginning moves the counter, so this case does not arise
            exfalso
            cases e with
            | speechStarted e =>
                have hbegun := FsmHost.onEvent_speechStarted_of_startsTurn now e hb
                rw [hbegun] at hturns
                have hnext := congrArg TurnFactory.next hturns
                simp at hnext
            | _ => cases hb
      · obtain ⟨e, rfl⟩ := Event.eq_speechStarted_of_kind hk
        exact .begins (by simp) hs hid (by simp only [hturns, TurnFactory.mint_next]) rfl
  | managerEvent now gateOpen e =>
      cases h
      exact .keeps (by simp) rfl (keepsTurns_onManager (Manager.onEvent_runTurns now gateOpen e _))
  | requestStop =>
      cases h
      have hrun : s.manager.requestStop.runTurns = s.manager.runTurns :=
        Manager.cancelActive_runTurns kNoTurn s.manager
      exact .keeps (by simp) rfl (keepsTurns_onManager hrun)
  | takeJob =>
      obtain ⟨m, hm, rfl⟩ := Option.map_eq_some_iff.mp h
      exact .keeps (by simp) rfl (keepsTurns_onManager (Manager.takeJob_runTurns hm))
  | askProvider =>
      obtain ⟨m, hm, rfl⟩ := Option.map_eq_some_iff.mp h
      exact .asks rfl rfl (Manager.askProvider_runTurns hm)
  | fixTurn =>
      obtain ⟨⟨m, turns⟩, hm, rfl⟩ := Option.map_eq_some_iff.mp h
      rcases Manager.fixTurn_runTurns hm with ⟨hrun, hturns⟩ | ⟨hrun, hturns⟩
      · exact .keeps (by simp) rfl ⟨hrun, rfl, Nat.le_of_eq (by simp only [hturns])⟩
      · exact .mints (by simp) rfl rfl (by simp only [hturns, TurnFactory.mint_next]) hrun
  | runHook =>
      obtain ⟨⟨m, t⟩, hm, rfl⟩ := Option.map_eq_some_iff.mp h
      exact .keeps (by simp) rfl ⟨Manager.runHook_runTurns hm, rfl, Nat.le_refl _⟩
  | startStream =>
      obtain ⟨m, hm, rfl⟩ := Option.map_eq_some_iff.mp h
      exact .keeps (by simp) rfl (keepsTurns_onManager (Manager.startStream_runTurns hm))
  | token delta =>
      obtain ⟨m, hm, rfl⟩ := Option.map_eq_some_iff.mp h
      exact .keeps (by simp) rfl (keepsTurns_onManager (Manager.onToken_runTurns hm))
  | finishStream n =>
      obtain ⟨m, hm, rfl⟩ := Option.map_eq_some_iff.mp h
      exact .keeps (by simp) rfl (keepsTurns_onManager (Manager.finishStream_runTurns hm))
  | abortStream =>
      obtain ⟨m, hm, rfl⟩ := Option.map_eq_some_iff.mp h
      exact .keeps (by simp) rfl (keepsTurns_onManager (Manager.abortStream_runTurns hm))
  | mint =>
      cases h
      exact .keeps (by simp) rfl ⟨rfl, rfl, Nat.le_succ _⟩

/-! ## The invariant -/

/-- The monitor: has the machine begun a turn since the manager last asked for one? -/
def noteBegun (begun : Bool) (s : DialogueStack) (a : StackAction) : Bool :=
  if a = .askProvider then false else begun || s.beginsTurn a

/-- The manager asks only when the machine has no turn, or one begun since it last asked. -/
def AsksForFreshTurn (p : DialogueStack × Bool) (a : StackAction) : Prop :=
  a = .askProvider → p.1.activeTurnProvider = kNoTurn ∨ p.2 = true

instance (p : DialogueStack × Bool) (a : StackAction) : Decidable (AsksForFreshTurn p a) :=
  inferInstanceAs (Decidable (a = .askProvider → p.1.activeTurnProvider = kNoTurn ∨ p.2 = true))

/-- What every run keeps: all ids came from the factory, and the active turn is one that
no run has taken exactly while the monitor says so. -/
structure TurnInv (s : DialogueStack) (begun : Bool) : Prop where
  active_lt : s.host.fsm.active.id < s.host.turns.next
  used_lt : ∀ t ∈ s.manager.runTurns, t < s.host.turns.next
  fresh : begun = true → s.host.fsm.active.id ∉ s.manager.runTurns
  taken : begun = false →
    s.host.fsm.active.id = kNoTurn ∨ s.host.fsm.active.id ∈ s.manager.runTurns

theorem TurnInv.step {s s' : DialogueStack} {begun : Bool} {a : StackAction}
    (hi : TurnInv s begun) (h : s.step a = some s') : TurnInv s' (noteBegun begun s a) := by
  cases step_turns h with
  | keeps hask hbegin hk =>
      have hnote : noteBegun begun s a = begun := by simp [noteBegun, hask, hbegin]
      rw [hnote]
      refine ⟨?_, ?_, ?_, ?_⟩
      · rw [hk.active]
        exact Nat.lt_of_lt_of_le hi.active_lt hk.next_le
      · intro t ht
        rw [hk.runTurns] at ht
        exact Nat.lt_of_lt_of_le (hi.used_lt t ht) hk.next_le
      · rw [hk.active, hk.runTurns]
        exact hi.fresh
      · rw [hk.active, hk.runTurns]
        exact hi.taken
  | asks hask hhost hrun =>
      have hnote : noteBegun begun s a = false := by simp [noteBegun, hask]
      rw [hnote]
      refine ⟨by rw [hhost]; exact hi.active_lt, ?_, by simp, fun _ => ?_⟩
      · intro t ht
        rw [hrun] at ht
        rw [hhost]
        rcases List.mem_append.mp ht with ht | ht
        · exact hi.used_lt t ht
        · split at ht
          · simp at ht
          · rw [List.mem_singleton] at ht
            exact ht ▸ hi.active_lt
      · rw [hhost, hrun]
        by_cases hid : s.host.fsm.active.id = kNoTurn
        · exact .inl hid
        · exact .inr (by simp [hid])
  | mints hask hbegin hactive hnext hrun =>
      have hnote : noteBegun begun s a = begun := by simp [noteBegun, hask, hbegin]
      rw [hnote]
      refine ⟨?_, ?_, ?_, ?_⟩
      · rw [hactive, hnext]
        exact Nat.lt_succ_of_lt hi.active_lt
      · intro t ht
        rw [hrun] at ht
        rw [hnext]
        rcases List.mem_append.mp ht with ht | ht
        · exact Nat.lt_succ_of_lt (hi.used_lt t ht)
        · rw [List.mem_singleton] at ht
          exact ht ▸ Nat.lt_succ_self _
      · intro hb
        rw [hactive, hrun]
        intro hmem
        rcases List.mem_append.mp hmem with hmem | hmem
        · exact hi.fresh hb hmem
        · exact absurd (List.mem_singleton.mp hmem) (Nat.ne_of_lt hi.active_lt)
      · intro hb
        rw [hactive, hrun]
        exact (hi.taken hb).imp id (fun hmem => List.mem_append_left _ hmem)
  | begins hask hbegin hactive hnext hrun =>
      have hnote : noteBegun begun s a = true := by simp [noteBegun, hask, hbegin]
      rw [hnote]
      refine ⟨?_, ?_, fun _ => ?_, by simp⟩
      · rw [hactive, hnext]
        exact Nat.lt_succ_self _
      · intro t ht
        rw [hrun] at ht
        rw [hnext]
        exact Nat.lt_succ_of_lt (hi.used_lt t ht)
      · rw [hactive, hrun]
        exact fun hmem => Nat.lt_irrefl _ (hi.used_lt _ hmem)

/-! ## Distinct turns -/

theorem step_runTurns_grows {s s' : DialogueStack} {a : StackAction} (h : s.step a = some s') :
    s.manager.runTurns <+: s'.manager.runTurns := by
  cases step_turns h with
  | keeps _ _ hk => exact hk.runTurns ▸ List.prefix_refl _
  | asks _ _ hrun => exact ⟨_, hrun.symm⟩
  | mints _ _ _ _ hrun => exact ⟨_, hrun.symm⟩
  | begins _ _ _ _ hrun => exact hrun ▸ List.prefix_refl _

/-- One step keeps the turns distinct exactly if it asks for a fresh turn. -/
theorem step_nodup_iff {s s' : DialogueStack} {begun : Bool} {a : StackAction}
    (hi : TurnInv s begun) (hnodup : s.manager.runTurns.Nodup) (h : s.step a = some s') :
    s'.manager.runTurns.Nodup ↔ AsksForFreshTurn (s, begun) a := by
  cases step_turns h with
  | keeps hask _ hk =>
      rw [hk.runTurns]
      exact iff_of_true hnodup (fun ha => absurd ha hask)
  | asks hask hhost hrun =>
      rw [hrun]
      by_cases hid : s.host.fsm.active.id = kNoTurn
      · rw [if_pos hid, List.append_nil]
        exact iff_of_true hnodup (fun _ => .inl hid)
      · rw [if_neg hid]
        have happend : (s.manager.runTurns ++ [s.host.fsm.active.id]).Nodup ↔
            s.host.fsm.active.id ∉ s.manager.runTurns := by
          simp [List.nodup_append, hnodup]
          exact ⟨fun hne hmem => hne _ hmem rfl, fun hnot t ht heq => hnot (heq ▸ ht)⟩
        rw [happend]
        constructor
        · intro hnot _
          right
          cases begun with
          | true => rfl
          | false => exact absurd ((hi.taken rfl).resolve_left hid) hnot
        · intro hfresh
          exact hi.fresh ((hfresh hask).resolve_left hid)
  | mints hask _ _ _ hrun =>
      rw [hrun]
      refine iff_of_true ?_ (fun ha => absurd ha hask)
      refine List.nodup_append.mpr ⟨hnodup, by simp, ?_⟩
      intro t ht u hu
      rw [List.mem_singleton] at hu
      exact hu ▸ Nat.ne_of_lt (hi.used_lt t ht)
  | begins hask _ _ _ hrun =>
      rw [hrun]
      exact iff_of_true hnodup (fun ha => absurd ha hask)

/-- The turns of a whole run are distinct exactly if it always asks for a fresh turn. -/
theorem run_nodup_iff {s s' : DialogueStack} {begun : Bool} {acts : List StackAction}
    (hi : TurnInv s begun) (hnodup : s.manager.runTurns.Nodup)
    (hrun : run step s acts = some s') :
    s'.manager.runTurns.Nodup ↔ Always (watch step noteBegun) AsksForFreshTurn (s, begun) acts := by
  obtain ⟨begun', hwatch⟩ := run_watch noteBegun begun hrun
  refine run_iff_always (fun w => TurnInv w.1 w.2)
    (fun w => w.1.manager.runTurns.Nodup) ?_ ?_ ?_ hwatch hi hnodup
  · intro w a w' hw hs
    obtain ⟨hs, hnote⟩ := watch_eq_some.mp hs
    rw [hnote]
    exact hw.step hs
  · intro w a w' hw hgood hs
    exact step_nodup_iff hw hgood (watch_eq_some.mp hs).1
  · -- a repeated turn stays in the list
    intro w a w' _ hbad hs hgood
    exact hbad (hgood.sublist (step_runTurns_grows (watch_eq_some.mp hs).1).sublist)

/-- The stack as the orchestrator builds it. -/
def initial (cfg : ManagerConfig) (session : Nat) : DialogueStack :=
  { manager := { cfg := cfg, session := session } }

theorem initial_inv (cfg : ManagerConfig) (session : Nat) : TurnInv (initial cfg session) false :=
  ⟨Nat.zero_lt_one, by simp [initial, Manager.runTurns, Manager.startedTurns, Manager.startedIn,
    Manager.inFlightTurn], by simp, fun _ => .inl rfl⟩

/-- No two runs publish `LlmStarted` with one turn id, in every state of every run that
asks for fresh turns only; and once no run is on its way to its `LlmStarted`, distinct
ids show that it asked for fresh turns only. -/
theorem startedTurns_nodup {cfg : ManagerConfig} {session : Nat} {acts : List StackAction}
    {s : DialogueStack} (hrun : run step (initial cfg session) acts = some s) :
    (Always (watch step noteBegun) AsksForFreshTurn (initial cfg session, false) acts →
      s.manager.startedTurns.Nodup) ∧
    (s.manager.inFlightTurn = [] → s.manager.startedTurns.Nodup →
      Always (watch step noteBegun) AsksForFreshTurn (initial cfg session, false) acts) := by
  have hiff := run_nodup_iff (initial_inv cfg session) List.nodup_nil hrun
  refine ⟨fun hall => ?_, fun hnone hnodup => ?_⟩
  · exact (hiff.mpr hall).sublist (List.sublist_append_left _ _)
  · refine hiff.mp ?_
    rwa [Manager.runTurns, hnone, List.append_nil]

/-- A question answered by one sentence: the machine begins a turn for it if it may, and
the manager runs it to the end of the stream. -/
def question (text : Bytes) : List StackAction :=
  [.fsmEvent 1 (.speechStarted {}), .fsmEvent 2 (.speechEnded {}),
    .fsmEvent 3 (.finalTranscript { text := text }),
    .managerEvent 3 true (.finalTranscript { text := text }),
    .takeJob, .askProvider, .fixTurn, .runHook, .startStream, .token (ascii "Certainly. So"),
    .finishStream 1]

/-- Two questions; turn 1 is over before the second. -/
def twoQuestions : List StackAction :=
  .fsmStart 0 :: question (ascii "hello") ++ [.fsmEvent 4 (.llmFinished { turn := 1 })] ++
    question (ascii "again")

/-- Two questions, the second asked while the machine speaks the answer to the first; the
barge-in detector interrupts turn 1 in reaction to the second `SpeechStarted`. -/
def bargeInQuestion : List StackAction :=
  .fsmStart 0 :: question (ascii "hello") ++
    [.fsmEvent 4 (.llmSentence { turn := 1, text := ascii "Certainly." }),
      .fsmEvent 5 (.speechStarted {}), .fsmEvent 5 (.userInterrupted { turn := 1 }),
      .managerEvent 5 true (.userInterrupted { turn := 1 }), .fsmEvent 6 (.speechEnded {}),
      .fsmEvent 7 (.finalTranscript { text := ascii "again" }),
      .managerEvent 7 true (.finalTranscript { text := ascii "again" }),
      .takeJob, .askProvider, .fixTurn, .runHook, .startStream]

theorem startedTurns_nodup_twoQuestions :
    ∃ s, run step (initial {} 1) twoQuestions = some s ∧ s.manager.startedTurns = [1, 2] ∧
      Always (watch step noteBegun) AsksForFreshTurn (initial {} 1, false) twoQuestions := by
  obtain ⟨s, hs, hstarted, hnone⟩ : ∃ s, run step (initial {} 1) twoQuestions = some s ∧
      s.manager.startedTurns = [1, 2] ∧ s.manager.inFlightTurn = [] := by
    refine ⟨(run step (initial {} 1) twoQuestions).get (by decide), ?_, by decide, by decide⟩
    exact (Option.some_get _).symm
  exact ⟨s, hs, hstarted, (startedTurns_nodup hs).2 hnone (by rw [hstarted]; decide)⟩

/-- The two runs of a barge-in both publish `LlmStarted` for turn 1. -/
theorem bargeInQuestion_repeats_turn :
    ∃ s, run step (initial {} 1) bargeInQuestion = some s ∧ s.manager.startedTurns = [1, 1] ∧
      ¬ s.manager.startedTurns.Nodup := by
  refine ⟨(run step (initial {} 1) bargeInQuestion).get (by decide), ?_, by decide, by decide⟩
  exact (Option.some_get _).symm

end Acva.Orchestrator.DialogueStack

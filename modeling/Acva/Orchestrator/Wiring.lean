import Acva.Event.SelfDelivery
import Acva.Orchestrator.DialogueStack

/-! # The dialogue stack on the bus

The state machine and the manager subscribe to every event with blocking queues,
and both publish from inside their handlers: the machine when it is interrupted,
the manager when it refuses a transcript. Events of the other threads reach the
bus through its publishers.
-/

namespace Acva.Orchestrator

open Acva.Dialogue Acva.Bus Acva.Runs

/-- What a subscription's handler belongs to. -/
inductive Role
  | fsm
  | manager
  /-- A subscriber that publishes nothing from its handler. -/
  | listener
deriving DecidableEq, Repr

/-- Whether the stack takes this step outside the bus handlers. -/
def StackAction.offBus : StackAction → Bool
  | .fsmEvent _ _ => false
  | .managerEvent _ _ _ => false
  | _ => true

namespace DialogueStack

/-- The clock reading and the gate's answer. -/
abbrev HandlerInput := TimePoint × Bool

def fsmHandler (input : HandlerInput) (e : Event) (s : DialogueStack) :
    DialogueStack × List Event :=
  let host := s.host.onEvent input.1 e
  ({ s with host := host }, host.fsm.published.drop s.host.fsm.published.length)

def managerHandler (input : HandlerInput) (e : Event) (s : DialogueStack) :
    DialogueStack × List Event :=
  let manager := s.manager.onEvent input.1 input.2 e
  (s.onManager manager, manager.published.drop s.manager.published.length)

def wiring (role : Nat → Role) : Components DialogueStack HandlerInput StackAction where
  react i input e s :=
    match role i with
    | .fsm => s.fsmHandler input e
    | .manager => s.managerHandler input e
    | .listener => (s, [])
  env a s := if a.offBus = true then s.step a else none

def kFsmQueueCapacity : Nat := 512

def kManagerQueueCapacity : Nat := 256

/-! ## What the handlers publish -/

theorem fsm_onEvent_published (h : FsmHost) (now : TimePoint) (e : Event) :
    (h.onEvent now e).fsm.published = h.fsm.published ∨
      e.kind = .userInterrupted ∧ (h.onEvent now e).fsm.published =
        h.fsm.published ++ [.cancelGeneration { turn := h.fsm.active.id }] := by
  cases e with
  | speechStarted e =>
      left
      simp only [FsmHost.onEvent, FsmHost.handleSpeechStarted]
      split <;> rfl
  | speechEnded e =>
      left
      simp only [FsmHost.onEvent, FsmHost.onFsm, Fsm.handleSpeechEnded]
      split <;> rfl
  | finalTranscript e =>
      left
      simp only [FsmHost.onEvent, FsmHost.onFsm, Fsm.handleFinalTranscript]
      split <;> rfl
  | llmSentence e =>
      left
      simp only [FsmHost.onEvent, FsmHost.onFsm, Fsm.handleLlmSentence]
      split <;> rfl
  | llmFinished e =>
      left
      simp only [FsmHost.onEvent, FsmHost.onFsm, Fsm.handleLlmFinished]
      split
      · rfl
      · split <;> rfl
  | playbackFinished e =>
      left
      simp only [FsmHost.onEvent, FsmHost.onFsm, Fsm.handlePlaybackFinished]
      split
      · rfl
      · split <;> rfl
  | userInterrupted e =>
      by_cases hrest : h.fsm.state = .listening ∨ h.fsm.state = .idle
      · left
        rw [FsmHost.onEvent_userInterrupted_of_rests now e hrest]
      · exact .inr ⟨rfl, FsmHost.onEvent_userInterrupted_published now e hrest⟩
  | _ => exact .inl rfl

/-- The machine publishes from its handler only when it is interrupted, and then one event. -/
theorem fsmHandler_publishes (input : HandlerInput) (e : Event) (s : DialogueStack) :
    (s.fsmHandler input e).2 = [] ∨ e.kind = .userInterrupted ∧
      (s.fsmHandler input e).2 = [.cancelGeneration { turn := s.host.fsm.active.id }] := by
  rcases fsm_onEvent_published s.host input.1 e with hsame | ⟨hkind, hone⟩
  · left
    simp only [fsmHandler, hsame, List.drop_length]
  · refine .inr ⟨hkind, ?_⟩
    simp only [fsmHandler, hone, List.drop_left]

/-- The manager publishes from its handler only when it refuses a transcript, and then one
event. -/
theorem managerHandler_publishes (input : HandlerInput) (e : Event) (s : DialogueStack) :
    (s.managerHandler input e).2 = [] ∨ ∃ t, e = .finalTranscript t ∧
      (s.managerHandler input e).2 = [.userInterrupted { turn := t.turn, ts := input.1 }] := by
  cases e with
  | finalTranscript t =>
      simp only [managerHandler, Manager.onEvent, Manager.onFinalTranscript]
      split
      · exact .inr ⟨t, rfl, by simp [Manager.publish]⟩
      · split
        · exact .inr ⟨t, rfl, by simp [Manager.publish]⟩
        · left
          simp [Manager.enqueueTurn]
  | userInterrupted e =>
      left
      simp only [managerHandler, Manager.onEvent, Manager.cancelActive_published, List.drop_length]
  | cancelGeneration e =>
      left
      simp only [managerHandler, Manager.onEvent, Manager.cancelActive_published, List.drop_length]
  | _ =>
      left
      simp [managerHandler, Manager.onEvent]

/-! ## The machine's own queue -/

/-- The machine subscribes first, the manager second. -/
def dialogueRoles : Nat → Role
  | 0 => .fsm
  | 1 => .manager
  | _ => .listener

abbrev dialogueBus : Components DialogueStack HandlerInput StackAction := wiring dialogueRoles

abbrev DialogueAction := BusAction HandlerInput StackAction

/-- Both components subscribe and wait for events; the machine is started. -/
def startup : List DialogueAction :=
  [.subscribe none kFsmQueueCapacity .block, .component (.fsmStart 0),
    .subscribe none kManagerQueueCapacity .block, .testRunning 0, .testRunning 1]

/-- One publisher thread publishes `e`, which the manager's worker handles at once. -/
def publishPastManager (e : Event) : List DialogueAction :=
  [.publish 0 e, .deliver 0, .deliver 0, .deliver 0, .pop 1 (0, true), .handlerReturns 1,
    .testRunning 1]

/-- The same, handled by the machine too. -/
def publishToBoth (e : Event) : List DialogueAction :=
  publishPastManager e ++ [.pop 0 (0, true), .handlerReturns 0, .testRunning 0]

/-- The user starts to speak and is interrupted; the machine's worker stands in its handler,
before the publish of `CancelGeneration`. -/
def interrupted : List DialogueAction :=
  startup ++ publishToBoth (.speechStarted {}) ++
    (publishPastManager (.userInterrupted { turn := 1 }) ++ [.pop 0 (0, true)])

/-- The handler's publish, up to its push to the machine's own queue. -/
def cancels : List DialogueAction := [.workerPublish 0, .workerDeliver 0]

/-- With nobody else publishing meanwhile, the machine's push finds room. -/
theorem not_blockedOnItself_interrupted :
    ∃ b sub, run (EventBus.step dialogueBus) { components := {} } (interrupted ++ cancels) =
        some b ∧ b.subs[0]? = some sub ∧ sub.queue.items.length = 1 ∧ ¬ sub.BlockedOnItself 0 := by
  have hsome : (run (EventBus.step dialogueBus) { components := {} }
      (interrupted ++ cancels)).isSome = true := by decide
  obtain ⟨b, hb⟩ := Option.isSome_iff_exists.mp hsome
  have hsub : ((run (EventBus.step dialogueBus) { components := {} } (interrupted ++ cancels)).bind
      fun b => b.subs[0]?.map fun sub => sub.queue.items.length) = some 1 := by decide
  rw [hb, Option.bind_some, Option.map_eq_some_iff] at hsub
  obtain ⟨sub, hsub, hlen⟩ := hsub
  exact ⟨b, sub, hb, hsub, hlen, EventBus.not_blockedOnItself hb (by decide) hsub⟩

/-- The machine's worker is about to publish `CancelGeneration` and `n` events have come in
since it took the interruption; the manager's queue is empty. -/
structure Flooded (n : Nat) (b : EventBus DialogueStack) : Prop where
  open_ : b.shuttingDown = false
  publisher : b.publishers 0 = none
  subs : ∃ fsm manager : Subscription, b.subs = [fsm, manager] ∧
    fsm.target = none ∧ fsm.worker = .handling none [.cancelGeneration { turn := 1 }] ∧
    fsm.queue.policy = .block ∧ fsm.queue.closed = false ∧
    fsm.queue.capacity = kFsmQueueCapacity ∧ fsm.queue.items.length = n ∧
    manager.target = none ∧ manager.running = true ∧ manager.worker = .popping ∧
    manager.queue.policy = .block ∧ manager.queue.closed = false ∧
    manager.queue.capacity = kManagerQueueCapacity ∧ manager.queue.items = []

theorem react_ttsAudioChunk (input : HandlerInput) (e : TtsAudioChunk) (s : DialogueStack) :
    dialogueBus.react 1 input (.ttsAudioChunk e) s = (s, []) := by
  simp [wiring, dialogueRoles, managerHandler, Manager.onEvent, onManager]

/-- One audio event more. -/
theorem Flooded.publish {n : Nat} {b : EventBus DialogueStack} (h : Flooded n b)
    (hn : n < kFsmQueueCapacity) :
    ∃ b', run (EventBus.step dialogueBus) b (publishPastManager (.ttsAudioChunk {})) = some b' ∧
      Flooded (n + 1) b' := by
  obtain ⟨subs, shuttingDown, published, publishers, components⟩ := b
  obtain ⟨hopen, hpub, ⟨fsm, ⟨mtarget, ⟨mcap, mpolicy, mitems, mclosed, mpushes, mpops, mdrops⟩,
    mrun, mworker⟩, hsubs, hftarget, hfworker, hfpolicy, hfclosed, hfcap, hflen, hm⟩⟩ := h
  obtain ⟨rfl, rfl, rfl, rfl, rfl, rfl, rfl⟩ := hm
  dsimp only at hopen hpub hsubs
  subst hopen hsubs
  have hroom : fsm.queue.push (.ttsAudioChunk {}) =
      some (true, fsm.queue.append (.ttsAudioChunk {})) := by
    simp only [BoundedQueue.push, BoundedQueue.full, hfclosed, hfcap, hflen]
    rw [if_neg (by decide), if_neg (by simpa using hn)]
  have hmanager : BoundedQueue.push (Event.ttsAudioChunk {})
      { capacity := kManagerQueueCapacity, policy := .block, items := [], closed := false,
        pushes := mpushes, pops := mpops, drops := mdrops } =
      some (true, { capacity := kManagerQueueCapacity, policy := .block,
                    items := [.ttsAudioChunk {}], pushes := mpushes + 1, pops := mpops,
                    drops := mdrops }) := rfl
  refine ⟨{
    subs := [{ fsm with queue := fsm.queue.append (.ttsAudioChunk {}) },
      { target := none
        worker := .popping
        queue := { capacity := kManagerQueueCapacity, policy := .block, pushes := mpushes + 1,
                   pops := mpops + 1, drops := mdrops } }]
    published := published + 1
    publishers := Function.update publishers 0 none
    components := components }, ?_, ?_⟩
  · simp [publishPastManager, EventBus.step, hpub, EventBus.snapshot, Subscription.wants,
      hftarget, EventBus.pushTo, hroom, hmanager, EventBus.setSub, EventBus.setWorker,
      BoundedQueue.pop, react_ttsAudioChunk, List.range_succ]
  · refine ⟨rfl, by simp, _, _, rfl, hftarget, hfworker, hfpolicy, hfclosed, hfcap, ?_, rfl, rfl,
      rfl, rfl, rfl, rfl, rfl⟩
    simp [BoundedQueue.append, hflen]

theorem Flooded.publish_many {n k : Nat} {b : EventBus DialogueStack} (h : Flooded n b)
    (hk : n + k ≤ kFsmQueueCapacity) :
    ∃ b', run (EventBus.step dialogueBus) b
        (List.replicate k (publishPastManager (.ttsAudioChunk {}))).flatten = some b' ∧
      Flooded (n + k) b' := by
  induction k generalizing n b with
  | zero => exact ⟨b, rfl, h⟩
  | succ k ih =>
      obtain ⟨b₁, hone, hnext⟩ := h.publish (by omega)
      obtain ⟨b', hrest, hlast⟩ := ih hnext (by omega)
      refine ⟨b', ?_, ?_⟩
      · rw [List.replicate_succ, List.flatten_cons, run_append, hone, Option.bind_some, hrest]
      · rwa [Nat.add_assoc, Nat.add_comm 1 k] at hlast

theorem interrupted_flooded :
    ∃ b, run (EventBus.step dialogueBus) { components := {} } interrupted = some b ∧
      Flooded 0 b := by
  refine ⟨(run (EventBus.step dialogueBus) { components := {} } interrupted).get (by decide),
    (Option.some_get _).symm, ?_⟩
  refine ⟨by decide, by decide, _, _, rfl, ?_⟩
  decide

/-- The interrupted machine's queue fills up before its handler publishes. -/
def floodedInterrupt : List DialogueAction :=
  interrupted ++
    ((List.replicate kFsmQueueCapacity (publishPastManager (.ttsAudioChunk {}))).flatten ++
      [.workerPublish 0])

/-- The machine's worker is blocked in the push of `CancelGeneration` to its own queue. -/
theorem blockedOnItself_floodedInterrupt :
    ∃ b sub, run (EventBus.step dialogueBus) { components := {} } floodedInterrupt = some b ∧
      b.subs[0]? = some sub ∧ sub.BlockedOnItself 0 := by
  obtain ⟨b₀, hinterrupted, hempty⟩ := interrupted_flooded
  obtain ⟨b₁, hflood, hopen, _, fsm, manager, hsubs, htarget, hworker, hpolicy, hclosed, hcap,
    hlen, hmtarget, _⟩ := hempty.publish_many (k := kFsmQueueCapacity) (by omega)
  have hsnapshot : b₁.snapshot (.cancelGeneration { turn := 1 }) = [0, 1] := by
    simp [EventBus.snapshot, hsubs, Subscription.wants, htarget, hmtarget, List.range_succ]
  let blocked : Subscription :=
    { fsm with worker := .handling (some ⟨.cancelGeneration { turn := 1 }, [0, 1]⟩) [] }
  obtain ⟨b₂, hpublish, hblocked⟩ : ∃ b₂, EventBus.step dialogueBus b₁ (.workerPublish 0) =
      some b₂ ∧ b₂.subs[0]? = some blocked := by
    refine ⟨{ b₁ with subs := [blocked, manager], published := b₁.published + 1 }, ?_, rfl⟩
    simp [EventBus.step, hsubs, hworker, hopen, hsnapshot, EventBus.setWorker, EventBus.setSub,
      blocked]
  refine ⟨b₂, blocked, ?_, hblocked, _, [1], [], rfl, hpolicy, hclosed, ?_⟩
  · rw [floodedInterrupt, run_append, hinterrupted, Option.bind_some, run_append, hflood,
      Option.bind_some, run_cons, hpublish]
    rfl
  · show fsm.queue.capacity ≤ fsm.queue.items.length
    omega

end DialogueStack

end Acva.Orchestrator

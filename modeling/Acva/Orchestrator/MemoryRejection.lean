import Acva.Dialogue.Manager.Machine
import Acva.Memory.Summarizer
import Acva.Orchestrator.ExchangePrompt

/-! # Jobs that the memory thread refuses

The manager's I/O thread and the summarizer's worker wait for the results of their jobs.
The future of a job that finds the queue full holds an exception, and nothing between
`get()` and the entry of either thread catches it. Writers of turns fill the same queue,
and nobody tells them to wait.
-/

namespace Acva.Orchestrator

open Acva.Bus Acva.Dialogue Acva.Llm Acva.Memory Acva.Runs

inductive MemoryJob
  /-- The row of a turn, which nobody waits for. -/
  | write (job : InsertTurnJob)
  | readPrompt (session : SessionId)
  | readRange (session : SessionId)
  | store (draft : SummaryDraft)
deriving DecidableEq, Repr

def MemoryJob.exec (o : JobOutcome) (job : MemoryJob) (repo : Repository) : Repository :=
  match job with
  | .write job => { repo with turns := job.exec o.insertOk o.statusOk o.now repo.turns }
  | .readPrompt _ => repo
  | .readRange _ => repo
  | .store draft => (draft.store o.query.turnsOk o.insertOk o.now repo).2

/-- How far `PromptBuilder::build` is. -/
inductive PromptRead
  | none
  /-- Waiting for the snapshot. -/
  | reading
  | built (body : Bytes)
deriving DecidableEq, Repr

/-- The threads that share the memory thread. An exception that leaves one of them terminates
the process. -/
structure DialogueHost where
  promptCfg : PromptConfig := {}
  memory : MemoryThread MemoryJob JobOutcome
  manager : Manager := {}
  turns : TurnFactory := {}
  prompt : PromptRead := .none
  summarizer : Summarizer := {}
  submitted : List (TurnId × Bytes) := []
  terminated : Bool := false

inductive HostAction
  /-- A writer posts a row. -/
  | write (job : InsertTurnJob)
  /-- The memory thread runs a job. -/
  | work (outcome : JobOutcome)
  /-- The manager's subscription thread handles an event. -/
  | event (now : TimePoint) (gateOpen : Bool) (e : Event)
  | setSession (session : Nat)
  | requestStop
  | takeJob
  | askProvider (id : TurnId)
  | fixTurn
  | build
  | runHook
  | startStream
  | token (delta : Bytes)
  | finishStream (tokensGenerated : Nat)
  | abortStream
  /-- The summarizer's handler, and its worker. -/
  | finished (e : LlmFinished)
  | checkCount
  | triggerNow
  | stopSummarizer
  | takeSummary
  | loadSession
  | submitRead
  | summaryFinished (tokens : List Bytes) (error : Bool)
  | submitWrite
  | endRound
deriving DecidableEq, Repr

namespace DialogueHost

variable (writeJson : ChatRequest → Option Bytes) (writeSummary : SummaryRequest → Option Bytes)

/-- Right after start-up: the queue is empty. -/
def start (capacity : Nat) (repo : Repository) (managerCfg : ManagerConfig)
    (promptCfg : PromptConfig) (summaryCfg : SummaryConfig) : DialogueHost where
  promptCfg := promptCfg
  memory := { repo := repo, queue := { capacity := capacity, policy := .dropNewest } }
  manager := { cfg := managerCfg }
  summarizer := { cfg := summaryCfg }

/-- The body of the prompt that the I/O thread asks for. -/
def promptBody (h : DialogueHost) (session : SessionId) (snap : MemorySnapshot) : Bytes :=
  match h.manager.io with
  | .building job =>
      (Llm.build writeJson h.promptCfg
        { sessionId := session, lang := h.manager.replyLang job, currentUserText := job.text }
        snap).1
  | _ => []

/-- What the thread learns that waits for a job. -/
def answer (o : JobOutcome) (job : MemoryJob) (repo : Repository) (h : DialogueHost) :
    DialogueHost :=
  match job with
  | .write _ => h
  | .readPrompt session =>
      if h.prompt = .reading then
        { h with
          prompt := .built
            (h.promptBody writeJson session (readSnapshot h.promptCfg session o.query repo)) }
      else h
  | .readRange session =>
      { h with
        summarizer := (h.summarizer.onRange writeSummary
          (Memory.readRange session o.query.summaryOk o.query.turnsOk repo)).getD h.summarizer }
  | .store draft =>
      { h with
        summarizer := (h.summarizer.onStored
          (draft.store o.query.turnsOk o.insertOk o.now repo).1).getD h.summarizer }

def work (o : JobOutcome) (h : DialogueHost) : Option DialogueHost :=
  (h.memory.work MemoryJob.exec o).map fun (job, memory) =>
    answer writeJson writeSummary o job h.memory.repo { h with memory := memory }

/-- `PromptBuilder::build` up to the result of `read`, which a job that is not accepted makes
throw. Without a session nothing is read. -/
def build (h : DialogueHost) : Option DialogueHost :=
  match h.manager.io, h.prompt with
  | .building _, .none =>
      if h.manager.session = 0 then
        some { h with prompt := .built (h.promptBody writeJson 0 {}) }
      else
        let (accepted, memory) := h.memory.post (.readPrompt h.manager.session)
        some { h with
          memory := memory
          prompt := if accepted = true then .reading else .none
          terminated := !accepted }
  | _, _ => none

/-- The prompt is handed to the LLM client. -/
def startStream (h : DialogueHost) : Option DialogueHost :=
  match h.prompt with
  | .built body =>
      h.manager.startStream.map fun manager =>
        { h with
          manager := manager
          prompt := .none
          submitted := h.submitted ++ [(h.manager.active.id, body)] }
  | _ => none

def submitRead (h : DialogueHost) : Option DialogueHost :=
  match h.summarizer.worker with
  | .asking session =>
      let (accepted, memory) := h.memory.post (.readRange session)
      (h.summarizer.submitRead accepted).map fun summarizer =>
        { h with memory := memory, summarizer := summarizer, terminated := !accepted }
  | _ => none

def submitWrite (h : DialogueHost) : Option DialogueHost :=
  match h.summarizer.worker with
  | .drafted draft =>
      let (accepted, memory) := h.memory.post (.store draft)
      (h.summarizer.submitWrite accepted).map fun summarizer =>
        { h with memory := memory, summarizer := summarizer, terminated := !accepted }
  | _ => none

def withManager (h : DialogueHost) (m : Option Manager) : Option DialogueHost :=
  m.map fun manager => { h with manager := manager }

def withSummarizer (h : DialogueHost) (s : Option Summarizer) : Option DialogueHost :=
  s.map fun summarizer => { h with summarizer := summarizer }

/-- A step of a process that is alive. -/
def move (h : DialogueHost) : HostAction → Option DialogueHost
  | .write job => some { h with memory := (h.memory.post (.write job)).2 }
  | .work outcome => h.work writeJson writeSummary outcome
  | .event now gateOpen e => some { h with manager := h.manager.onEvent now gateOpen e }
  | .setSession session =>
      some { h with
        manager := { h.manager with session := session }
        summarizer := { h.summarizer with session := session } }
  | .requestStop => some { h with manager := h.manager.requestStop }
  | .takeJob => h.withManager h.manager.takeJob
  | .askProvider id => h.withManager (h.manager.askProvider id)
  | .fixTurn =>
      (h.manager.fixTurn h.turns).map fun (manager, turns) =>
        { h with manager := manager, turns := turns }
  | .build => h.build writeJson
  | .runHook =>
      match h.prompt with
      | .built _ => h.withManager (h.manager.runHook.map (·.1))
      | _ => none
  | .startStream => h.startStream
  | .token delta => h.withManager (h.manager.onToken delta)
  | .finishStream tokensGenerated => h.withManager (h.manager.finishStream tokensGenerated)
  | .abortStream => h.withManager h.manager.abortStream
  | .finished e => h.withSummarizer (h.summarizer.onEvent e)
  | .checkCount => h.withSummarizer h.summarizer.checkCount
  | .triggerNow => some { h with summarizer := h.summarizer.triggerNow }
  | .stopSummarizer => some { h with summarizer := { h.summarizer with stopping := true } }
  | .takeSummary => h.withSummarizer h.summarizer.takeJob
  | .loadSession => h.withSummarizer h.summarizer.loadSession
  | .submitRead => h.submitRead
  | .summaryFinished tokens error => h.withSummarizer (h.summarizer.onFinished tokens error)
  | .submitWrite => h.submitWrite
  | .endRound => h.withSummarizer h.summarizer.endRound

def step (h : DialogueHost) (a : HostAction) : Option DialogueHost :=
  if h.terminated = true then none else h.move writeJson writeSummary a

/-- How many transcripts `io_loop` has taken. -/
def note (taken : Nat) (h : DialogueHost) : HostAction → Nat
  | .takeJob => if h.manager.pending.isSome = true then taken + 1 else taken
  | _ => taken

/-- A transcript is taken, and its prompt is not yet at the LLM client. -/
def underWay : IoPc → Nat
  | .took _ => 1
  | .asked _ _ => 1
  | .building _ => 1
  | .hooked _ => 1
  | _ => 0

/-- No exception has left a thread. Each transcript that was taken has been submitted to the
LLM, but for the one under way; at its loop the I/O thread holds no context; and whoever
waits for a job, waits for a job in the queue. -/
structure KeepsServing (h : DialogueHost) (taken : Nat) : Prop where
  alive : h.terminated = false
  submitted : taken = h.submitted.length + underWay h.manager.io
  cleared : h.manager.io = .idle → h.manager.active = {}
  promptQueued : h.prompt = .reading → ∃ session, .readPrompt session ∈ h.memory.queue.items
  rangeQueued : ∀ session, h.summarizer.worker = .reading session →
    .readRange session ∈ h.memory.queue.items
  storeQueued : ∀ draft, h.summarizer.worker = .writing draft →
    .store draft ∈ h.memory.queue.items

/-- A job that is waited for finds room in the queue. -/
def HasRoom (h : DialogueHost) : HostAction → Prop
  | .build => h.manager.session ≠ 0 → h.memory.queue.full = false
  | .submitRead => h.memory.queue.full = false
  | .submitWrite => h.memory.queue.full = false
  | _ => True

instance (h : DialogueHost) (a : HostAction) : Decidable (h.HasRoom a) := by
  unfold HasRoom
  split <;> infer_instance

/-! ## The memory thread -/

/-- The thread is running, and its queue drops what it cannot hold. -/
structure Open (m : MemoryThread MemoryJob JobOutcome) : Prop where
  running : m.running = true
  notClosed : m.queue.closed = false
  policy : m.queue.policy = .dropNewest

/-- A job is accepted exactly if the queue has room, and is then in it. -/
structure Posts (job : MemoryJob) (m : MemoryThread MemoryJob JobOutcome) : Prop where
  accepted : (m.post job).1 = !m.queue.full
  opened : Open (m.post job).2
  keeps : ∀ x ∈ m.queue.items, x ∈ (m.post job).2.queue.items
  queued : (m.post job).1 = true → job ∈ (m.post job).2.queue.items

theorem Open.posts {m : MemoryThread MemoryJob JobOutcome} (h : Open m) (job : MemoryJob) :
    Posts job m := by
  obtain ⟨hrunning, hclosed, hpolicy⟩ := h
  cases hfull : m.queue.full with
  | true =>
      have hpost : m.post job = (false, { m with queue := { m.queue with
          drops := m.queue.drops + 1 } }) := by
        simp [MemoryThread.post, hrunning, BoundedQueue.push, hclosed, hfull, hpolicy]
      constructor <;> rw [hpost]
      · rw [hfull]
        rfl
      · exact ⟨hrunning, hclosed, hpolicy⟩
      · exact fun x hx => hx
      · intro haccepted
        cases haccepted
  | false =>
      have hpost : m.post job = (true, { m with queue := m.queue.append job }) := by
        simp [MemoryThread.post, hrunning, BoundedQueue.push, hclosed, hfull]
      constructor <;> rw [hpost]
      · rw [hfull]
        rfl
      · exact ⟨hrunning, hclosed, hpolicy⟩
      · exact fun x hx => List.mem_append_left _ hx
      · exact fun _ => List.mem_append_right _ (List.mem_singleton.mpr rfl)

/-- The memory thread takes the first job of the queue. -/
theorem Open.work {m m' : MemoryThread MemoryJob JobOutcome} (h : Open m) {o : JobOutcome}
    {job : MemoryJob} (hwork : m.work MemoryJob.exec o = some (job, m')) :
    Open m' ∧ m.queue.items = job :: m'.queue.items := by
  obtain ⟨hrunning, hclosed, hpolicy⟩ := h
  unfold MemoryThread.work at hwork
  rw [hrunning] at hwork
  cases hitems : m.queue.items with
  | nil => simp [BoundedQueue.pop, hitems, hclosed] at hwork
  | cons x rest =>
      simp only [BoundedQueue.pop, hitems, Bool.true_eq_false, ↓reduceIte, Option.some.injEq,
        Prod.mk.injEq] at hwork
      obtain ⟨rfl, rfl⟩ := hwork
      exact ⟨⟨rfl, hclosed, hpolicy⟩, rfl⟩

/-! ## What every step keeps -/

/-- All that `KeepsServing` says but that the process is alive. -/
structure Serving (h : DialogueHost) (taken : Nat) : Prop where
  opened : Open h.memory
  submitted : taken = h.submitted.length + underWay h.manager.io
  cleared : h.manager.io = .idle → h.manager.active = {}
  promptQueued : h.prompt = .reading → ∃ session, .readPrompt session ∈ h.memory.queue.items
  rangeQueued : ∀ session, h.summarizer.worker = .reading session →
    .readRange session ∈ h.memory.queue.items
  storeQueued : ∀ draft, h.summarizer.worker = .writing draft →
    .store draft ∈ h.memory.queue.items

theorem Serving.keepsServing {h : DialogueHost} {taken : Nat} (hs : Serving h taken)
    (halive : h.terminated = false) : KeepsServing h taken :=
  ⟨halive, hs.submitted, hs.cleared, hs.promptQueued, hs.rangeQueued, hs.storeQueued⟩

section Serving

variable {writeJson : ChatRequest → Option Bytes} {writeSummary : SummaryRequest → Option Bytes}
  {h h' : DialogueHost} {taken : Nat} {m : Manager} {s : Summarizer}

theorem Serving.withManager (hs : Serving h taken) {taken' : Nat}
    (htaken : taken' = h.submitted.length + underWay m.io)
    (hcleared : m.io = .idle → m.active = {}) : Serving { h with manager := m } taken' :=
  ⟨hs.opened, htaken, hcleared, hs.promptQueued, hs.rangeQueued, hs.storeQueued⟩

/-- The worker waits for no job that it has not waited for before. -/
def WaitsAsBefore (s s' : Summarizer) : Prop :=
  (∀ session, s'.worker = .reading session → s.worker = .reading session) ∧
    ∀ draft, s'.worker = .writing draft → s.worker = .writing draft

theorem Serving.withSummarizer (hs : Serving h taken) (hwaits : WaitsAsBefore h.summarizer s) :
    Serving { h with summarizer := s } taken :=
  ⟨hs.opened, hs.submitted, hs.cleared, hs.promptQueued,
    fun session hsession => hs.rangeQueued session (hwaits.1 session hsession),
    fun draft hdraft => hs.storeQueued draft (hwaits.2 draft hdraft)⟩

theorem Serving.post (hs : Serving h taken) (job : MemoryJob) :
    Serving { h with memory := (h.memory.post job).2 } taken := by
  have hposts := hs.opened.posts job
  refine ⟨hposts.opened, hs.submitted, hs.cleared, fun hprompt => ?_, fun session hsession => ?_,
    fun draft hdraft => ?_⟩
  · obtain ⟨session, hsession⟩ := hs.promptQueued hprompt
    exact ⟨session, hposts.keeps _ hsession⟩
  · exact hposts.keeps _ (hs.rangeQueued session hsession)
  · exact hposts.keeps _ (hs.storeQueued draft hdraft)

/-! ### The I/O thread -/

theorem onEvent_active {now : TimePoint} {gateOpen : Bool} {e : Event} (h : m.active = {}) :
    (m.onEvent now gateOpen e).active = {} := by
  have hcancel : ∀ target, (m.cancelActive target).active = {} := fun target => by
    simp [Manager.cancelActive, h, TurnContext.valid]
  cases e with
  | finalTranscript e => exact (m.onFinalTranscript_active now gateOpen e).trans h
  | userInterrupted e => exact hcancel e.turn
  | cancelGeneration e => exact hcancel e.turn
  | _ => exact h

theorem requestStop_io (m : Manager) : m.requestStop.io = m.io :=
  m.cancelActive_io kNoTurn

/-- The steps of `io_loop` and `run_one`: where they lead, and what they count. -/
theorem Serving.takeJob (hs : Serving h taken) (hm : h.manager.takeJob = some m) :
    Serving { h with manager := m } (note taken h .takeJob) := by
  have hcount := hs.submitted
  unfold Manager.takeJob at hm
  split at hm
  next job hidle hpending =>
    cases hm
    refine hs.withManager ?_ nofun
    simp only [note, hpending, Option.isSome_some, ↓reduceIte, underWay]
    rw [hcount, hidle]
    rfl
  next hidle hpending =>
    split at hm
    · cases hm
      refine hs.withManager ?_ nofun
      simp only [note, hpending, Option.isSome_none, Bool.false_eq_true, ↓reduceIte, underWay]
      rw [hcount, hidle]
      rfl
    · cases hm
  next => cases hm

theorem Serving.askProvider (hs : Serving h taken) {id : TurnId}
    (hm : h.manager.askProvider id = some m) : Serving { h with manager := m } taken := by
  have hcount := hs.submitted
  unfold Manager.askProvider at hm
  split at hm
  next job hpc =>
    cases hm
    rw [hpc] at hcount
    exact hs.withManager hcount nofun
  next => cases hm

theorem Serving.fixTurn (hs : Serving h taken) {turns : TurnFactory}
    (hm : h.manager.fixTurn h.turns = some (m, turns)) :
    Serving { h with manager := m, turns := turns } taken := by
  have hcount := hs.submitted
  unfold Manager.fixTurn at hm
  split at hm
  next job id hpc =>
    rw [hpc] at hcount
    split at hm
    · cases hm
      exact ⟨hs.opened, hcount, nofun, hs.promptQueued, hs.rangeQueued, hs.storeQueued⟩
    · cases hm
      exact ⟨hs.opened, hcount, nofun, hs.promptQueued, hs.rangeQueued, hs.storeQueued⟩
  next => cases hm

theorem Serving.runHook (hs : Serving h taken) (hm : h.manager.runHook.map (·.1) = some m) :
    Serving { h with manager := m } taken := by
  have hcount := hs.submitted
  unfold Manager.runHook at hm
  split at hm
  next job hpc =>
    cases hm
    rw [hpc] at hcount
    exact hs.withManager hcount nofun
  next => cases hm

theorem Serving.startStream (hs : Serving h taken) (hm : h.startStream = some h') :
    Serving h' taken ∧ h'.terminated = h.terminated := by
  have hcount := hs.submitted
  unfold DialogueHost.startStream at hm
  split at hm
  next body hprompt =>
    obtain ⟨m, hm, rfl⟩ := Option.map_eq_some_iff.mp hm
    unfold Manager.startStream at hm
    split at hm
    next job hpc =>
      cases hm
      rw [hpc] at hcount
      refine ⟨⟨hs.opened, ?_, nofun, nofun, hs.rangeQueued, hs.storeQueued⟩, rfl⟩
      simpa [underWay] using hcount
    next => cases hm
  next => cases hm

theorem Serving.token (hs : Serving h taken) {delta : Bytes}
    (hm : h.manager.onToken delta = some m) : Serving { h with manager := m } taken := by
  have hcount := hs.submitted
  unfold Manager.onToken at hm
  split at hm
  next reply hpc =>
    cases hm
    rw [hpc] at hcount
    have hio : (h.manager.tokenCallback delta).io = .streaming (reply.onToken delta) := by
      simp [Manager.tokenCallback, hpc, Manager.setReply]
    refine hs.withManager ?_ ?_
    · rw [hio]
      exact hcount
    · rw [hio]
      nofun
  next => cases hm

theorem Serving.finishStream (hs : Serving h taken) {n : Nat}
    (hm : h.manager.finishStream n = some m) : Serving { h with manager := m } taken := by
  have hcount := hs.submitted
  unfold Manager.finishStream at hm
  split at hm
  next reply hpc =>
    cases hm
    rw [hpc] at hcount
    exact hs.withManager hcount fun _ => rfl
  next => cases hm

theorem Serving.abortStream (hs : Serving h taken) (hm : h.manager.abortStream = some m) :
    Serving { h with manager := m } taken := by
  have hcount := hs.submitted
  unfold Manager.abortStream at hm
  split at hm
  next reply hpc =>
    cases hm
    rw [hpc] at hcount
    exact hs.withManager hcount fun _ => rfl
  next => cases hm

/-! ### The jobs that are waited for -/

theorem Serving.build (hs : Serving h taken) (halive : h.terminated = false)
    (hm : h.build writeJson = some h') :
    Serving h' taken ∧ (h'.terminated = false ↔ h.HasRoom .build) := by
  unfold DialogueHost.build at hm
  split at hm
  next job hpc hprompt =>
    split at hm
    next hnone =>
      cases hm
      refine ⟨⟨hs.opened, hs.submitted, hs.cleared, nofun, hs.rangeQueued, hs.storeQueued⟩, ?_⟩
      exact iff_of_true halive fun hsome => absurd hnone hsome
    next hsome =>
      obtain ⟨haccepted, -, -, hqueued⟩ := hs.opened.posts (.readPrompt h.manager.session)
      have hpost := hs.post (.readPrompt h.manager.session)
      generalize h.memory.post (.readPrompt h.manager.session) = r at *
      obtain ⟨accepted, memory⟩ := r
      cases hm
      refine ⟨⟨hpost.opened, hpost.submitted, hpost.cleared, fun hreading => ?_,
        hpost.rangeQueued, hpost.storeQueued⟩, ?_⟩
      · cases accepted with
        | true => exact ⟨_, hqueued rfl⟩
        | false => cases hreading
      · simp only at haccepted
        simp [HasRoom, hsome, haccepted]
  next => cases hm

theorem Serving.submitRead (hs : Serving h taken) (hm : h.submitRead = some h') :
    Serving h' taken ∧ (h'.terminated = false ↔ h.HasRoom .submitRead) := by
  unfold DialogueHost.submitRead at hm
  split at hm
  next session hpc =>
    obtain ⟨haccepted, -, -, hqueued⟩ := hs.opened.posts (.readRange session)
    have hpost := hs.post (.readRange session)
    generalize h.memory.post (.readRange session) = r at *
    obtain ⟨accepted, memory⟩ := r
    simp only [Summarizer.submitRead, hpc, Option.map_some, Option.some.injEq] at hm
    subst hm
    refine ⟨⟨hpost.opened, hpost.submitted, hpost.cleared, hpost.promptQueued, ?_, ?_⟩, ?_⟩
    · intro session' hreading
      cases accepted with
      | true =>
          cases hreading
          exact hqueued rfl
      | false => cases hreading
    · intro draft hwriting
      cases accepted with
      | true => cases hwriting
      | false => cases hwriting
    · simp only at haccepted
      simp [HasRoom, haccepted]
  next => cases hm

theorem Serving.submitWrite (hs : Serving h taken) (hm : h.submitWrite = some h') :
    Serving h' taken ∧ (h'.terminated = false ↔ h.HasRoom .submitWrite) := by
  unfold DialogueHost.submitWrite at hm
  split at hm
  next draft hpc =>
    obtain ⟨haccepted, -, -, hqueued⟩ := hs.opened.posts (.store draft)
    have hpost := hs.post (.store draft)
    generalize h.memory.post (.store draft) = r at *
    obtain ⟨accepted, memory⟩ := r
    simp only [Summarizer.submitWrite, hpc, Option.map_some, Option.some.injEq] at hm
    subst hm
    refine ⟨⟨hpost.opened, hpost.submitted, hpost.cleared, hpost.promptQueued, ?_, ?_⟩, ?_⟩
    · intro session hreading
      cases accepted with
      | true => cases hreading
      | false => cases hreading
    · intro draft' hwriting
      cases accepted with
      | true =>
          cases hwriting
          exact hqueued rfl
      | false => cases hwriting
    · simp only at haccepted
      simp [HasRoom, haccepted]
  next => cases hm

theorem onRange_worker (writeSummary : SummaryRequest → Option Bytes) (range : SummaryRange)
    (s : Summarizer) :
    (∀ session, ((s.onRange writeSummary range).getD s).worker ≠ .reading session) ∧
      ∀ draft, ((s.onRange writeSummary range).getD s).worker = .writing draft →
        s.worker = .writing draft := by
  unfold Summarizer.onRange
  split
  next session hpc =>
    dsimp only
    split
    · exact ⟨nofun, nofun⟩
    · exact ⟨nofun, nofun⟩
  next hpc => exact ⟨hpc, fun _ hdraft => hdraft⟩

theorem onStored_worker (stored : Bool) (s : Summarizer) :
    (∀ draft, ((s.onStored stored).getD s).worker ≠ .writing draft) ∧
      ∀ session, ((s.onStored stored).getD s).worker = .reading session →
        s.worker = .reading session := by
  unfold Summarizer.onStored
  split
  next draft hpc =>
    constructor
    · intro draft' hwriting
      cases hwriting
    · intro session hreading
      cases hreading
  next hpc => exact ⟨hpc, fun _ hsession => hsession⟩

/-- The job that has run is the only one that left the queue, and its caller goes on. -/
theorem Serving.work (hs : Serving h taken) {o : JobOutcome}
    (hm : h.work writeJson writeSummary o = some h') :
    Serving h' taken ∧ h'.terminated = h.terminated := by
  obtain ⟨⟨job, memory⟩, hwork, rfl⟩ := Option.map_eq_some_iff.mp hm
  obtain ⟨hopen, hitems⟩ := hs.opened.work hwork
  have hprompt := hs.promptQueued
  have hrange := hs.rangeQueued
  have hstore := hs.storeQueued
  simp only [hitems, List.mem_cons] at hprompt hrange hstore
  cases job with
  | write job =>
      simp only [reduceCtorEq, false_or] at hprompt hrange hstore
      exact ⟨⟨hopen, hs.submitted, hs.cleared, hprompt, hrange, hstore⟩, rfl⟩
  | readPrompt session =>
      simp only [reduceCtorEq, false_or] at hrange hstore
      simp only [answer]
      split
      · exact ⟨⟨hopen, hs.submitted, hs.cleared, nofun, hrange, hstore⟩, rfl⟩
      next hnot =>
        exact ⟨⟨hopen, hs.submitted, hs.cleared, fun hreading => absurd hreading hnot, hrange,
          hstore⟩, rfl⟩
  | readRange session =>
      simp only [reduceCtorEq, false_or] at hprompt hstore
      obtain ⟨hread, hwrite⟩ := onRange_worker writeSummary
        (Memory.readRange session o.query.summaryOk o.query.turnsOk h.memory.repo) h.summarizer
      exact ⟨⟨hopen, hs.submitted, hs.cleared, hprompt,
        fun session' hreading => absurd hreading (hread session'),
        fun draft hwriting => hstore draft (hwrite draft hwriting)⟩, rfl⟩
  | store draft =>
      simp only [reduceCtorEq, false_or] at hprompt hrange
      obtain ⟨hwrite, hread⟩ := onStored_worker
        (draft.store o.query.turnsOk o.insertOk o.now h.memory.repo).1 h.summarizer
      exact ⟨⟨hopen, hs.submitted, hs.cleared, hprompt,
        fun session hreading => hrange session (hread session hreading),
        fun draft' hwriting => absurd hwriting (hwrite draft')⟩, rfl⟩

/-! ### The summarizer -/

theorem onEvent_waits {s s' : Summarizer} {e : LlmFinished} (hs : s.onEvent e = some s') :
    WaitsAsBefore s s' := by
  unfold Summarizer.onEvent at hs
  split at hs
  · cases hs
  · split at hs
    · cases hs
      exact ⟨fun _ => id, fun _ => id⟩
    · cases hs
      exact ⟨fun _ => id, fun _ => id⟩

theorem checkCount_waits {s s' : Summarizer} (hs : s.checkCount = some s') :
    WaitsAsBefore s s' := by
  unfold Summarizer.checkCount at hs
  split at hs
  · cases hs
    dsimp only
    split
    · exact ⟨fun _ => id, fun _ => id⟩
    · exact ⟨fun _ => id, fun _ => id⟩
  · cases hs

theorem takeJob_waits {s s' : Summarizer} (hs : s.takeJob = some s') : WaitsAsBefore s s' := by
  unfold Summarizer.takeJob at hs
  split at hs
  · split at hs
    · cases hs
      exact ⟨nofun, nofun⟩
    · split at hs
      · cases hs
        exact ⟨nofun, nofun⟩
      · cases hs
  · cases hs

theorem loadSession_waits {s s' : Summarizer} (hs : s.loadSession = some s') :
    WaitsAsBefore s s' := by
  unfold Summarizer.loadSession at hs
  split at hs
  · split at hs
    · cases hs
      exact ⟨nofun, nofun⟩
    · cases hs
      exact ⟨nofun, nofun⟩
  · cases hs

theorem onFinished_waits {s s' : Summarizer} {tokens : List Bytes} {error : Bool}
    (hs : s.onFinished tokens error = some s') : WaitsAsBefore s s' := by
  unfold Summarizer.onFinished at hs
  split at hs
  · cases hs
    exact ⟨nofun, nofun⟩
  · cases hs

theorem endRound_waits {s s' : Summarizer} (hs : s.endRound = some s') : WaitsAsBefore s s' := by
  unfold Summarizer.endRound at hs
  split at hs
  · cases hs
    exact ⟨nofun, nofun⟩
  · cases hs
    exact ⟨nofun, nofun⟩
  · cases hs

/-! ## One step of the process -/

theorem Serving.step (hs : Serving h taken) (halive : h.terminated = false) {a : HostAction}
    (hm : h.step writeJson writeSummary a = some h') :
    Serving h' (note taken h a) ∧ (h'.terminated = false ↔ h.HasRoom a) := by
  -- a step of the manager or of the summarizer alone
  have hmanager : ∀ {m : Option Manager}, h.withManager m = some h' → h.HasRoom a →
      (∀ m', m = some m' → Serving { h with manager := m' } (note taken h a)) →
      Serving h' (note taken h a) ∧ (h'.terminated = false ↔ h.HasRoom a) := by
    intro m hm hroom hserving
    obtain ⟨m', hm', rfl⟩ := Option.map_eq_some_iff.mp hm
    exact ⟨hserving m' hm', iff_of_true halive hroom⟩
  have hsummarizer : ∀ {s : Option Summarizer}, h.withSummarizer s = some h' → h.HasRoom a →
      note taken h a = taken → (∀ s', s = some s' → WaitsAsBefore h.summarizer s') →
      Serving h' (note taken h a) ∧ (h'.terminated = false ↔ h.HasRoom a) := by
    intro s hm hroom hnote hwaits
    obtain ⟨s', hs', rfl⟩ := Option.map_eq_some_iff.mp hm
    rw [hnote]
    exact ⟨hs.withSummarizer (hwaits s' hs'), iff_of_true halive hroom⟩
  simp only [DialogueHost.step, halive, Bool.false_eq_true, ↓reduceIte] at hm
  cases a with
  | write job =>
      cases hm
      exact ⟨hs.post (.write job), iff_of_true halive trivial⟩
  | work o =>
      obtain ⟨hserving, hsame⟩ := hs.work hm
      exact ⟨hserving, iff_of_true (hsame.trans halive) trivial⟩
  | event now gateOpen e =>
      cases hm
      have hio := h.manager.onEvent_io now gateOpen e
      refine ⟨hs.withManager ?_ fun hidle => ?_, iff_of_true halive trivial⟩
      · rw [hio]
        exact hs.submitted
      · rw [hio] at hidle
        exact onEvent_active (hs.cleared hidle)
  | setSession session =>
      cases hm
      exact ⟨⟨hs.opened, hs.submitted, hs.cleared, hs.promptQueued, hs.rangeQueued,
        hs.storeQueued⟩, iff_of_true halive trivial⟩
  | requestStop =>
      cases hm
      have hio := requestStop_io h.manager
      refine ⟨hs.withManager ?_ fun hidle => ?_, iff_of_true halive trivial⟩
      · rw [hio]
        exact hs.submitted
      · rw [hio] at hidle
        have hclear := hs.cleared hidle
        simp [Manager.requestStop, Manager.cancelActive, hclear, TurnContext.valid]
  | takeJob => exact hmanager hm trivial fun _ hm' => hs.takeJob hm'
  | askProvider id => exact hmanager hm trivial fun _ hm' => hs.askProvider hm'
  | fixTurn =>
      obtain ⟨⟨m, turns⟩, hm', rfl⟩ := Option.map_eq_some_iff.mp hm
      exact ⟨hs.fixTurn hm', iff_of_true halive trivial⟩
  | build => exact hs.build halive hm
  | runHook =>
      simp only [move] at hm
      split at hm
      · exact hmanager hm trivial fun _ hm' => hs.runHook hm'
      · cases hm
  | startStream =>
      obtain ⟨hserving, hsame⟩ := hs.startStream hm
      exact ⟨hserving, iff_of_true (hsame.trans halive) trivial⟩
  | token delta => exact hmanager hm trivial fun _ hm' => hs.token hm'
  | finishStream n => exact hmanager hm trivial fun _ hm' => hs.finishStream hm'
  | abortStream => exact hmanager hm trivial fun _ hm' => hs.abortStream hm'
  | finished e => exact hsummarizer hm trivial rfl fun _ => onEvent_waits
  | checkCount => exact hsummarizer hm trivial rfl fun _ => checkCount_waits
  | triggerNow =>
      cases hm
      exact ⟨hs.withSummarizer ⟨fun _ => id, fun _ => id⟩, iff_of_true halive trivial⟩
  | stopSummarizer =>
      cases hm
      exact ⟨hs.withSummarizer ⟨fun _ => id, fun _ => id⟩, iff_of_true halive trivial⟩
  | takeSummary => exact hsummarizer hm trivial rfl fun _ => takeJob_waits
  | loadSession => exact hsummarizer hm trivial rfl fun _ => loadSession_waits
  | submitRead => exact hs.submitRead hm
  | summaryFinished tokens error => exact hsummarizer hm trivial rfl fun _ => onFinished_waits
  | submitWrite => exact hs.submitWrite hm
  | endRound => exact hsummarizer hm trivial rfl fun _ => endRound_waits

theorem alive_of_step {a : HostAction} (hm : h.step writeJson writeSummary a = some h') :
    h.terminated = false := by
  unfold DialogueHost.step at hm
  split at hm
  · cases hm
  next halive => simpa using halive

end Serving

/-! ## Runs -/

/-- The dialogue goes on serving exactly if each job that is waited for found room in the
queue. -/
theorem run_keepsServing_iff {writeJson : ChatRequest → Option Bytes}
    {writeSummary : SummaryRequest → Option Bytes} {capacity : Nat} {repo : Repository}
    {managerCfg : ManagerConfig} {promptCfg : PromptConfig} {summaryCfg : SummaryConfig}
    {acts : List HostAction} {h : DialogueHost} {taken : Nat}
    (hrun : run (watch (step writeJson writeSummary) note)
      (start capacity repo managerCfg promptCfg summaryCfg, 0) acts = some (h, taken)) :
    KeepsServing h taken ↔ Always (watch (step writeJson writeSummary) note)
      (fun w a => w.1.HasRoom a) (start capacity repo managerCfg promptCfg summaryCfg, 0) acts := by
  have hserving : ∀ w a w', Serving w.1 w.2 →
      watch (step writeJson writeSummary) note w a = some w' →
      Serving w'.1 w'.2 ∧ w.1.terminated = false ∧
        (w'.1.terminated = false ↔ w.1.HasRoom a) := by
    intro w a w' hw hs
    obtain ⟨hstep, hnote⟩ := watch_eq_some.mp hs
    have halive := alive_of_step hstep
    obtain ⟨hnext, hroom⟩ := hw.step halive hstep
    exact ⟨hnote ▸ hnext, halive, hroom⟩
  have hstart : Serving (start capacity repo managerCfg promptCfg summaryCfg) 0 :=
    ⟨⟨rfl, rfl, rfl⟩, rfl, fun _ => rfl, nofun, nofun, nofun⟩
  have hlast : Serving h taken := run_preserves (fun w => Serving w.1 w.2)
    (fun w a w' hw hs => (hserving w a w' hw hs).1) hrun hstart
  have halive : KeepsServing h taken ↔ h.terminated = false :=
    ⟨fun hkeeps => hkeeps.alive, hlast.keepsServing⟩
  rw [halive]
  refine run_iff_always (fun w => Serving w.1 w.2) (fun w => w.1.terminated = false)
    (fun w a w' hw hs => (hserving w a w' hw hs).1)
    (fun w a w' hw _ hs => (hserving w a w' hw hs).2.2)
    (fun w a w' hw hdead hs => absurd (hserving w a w' hw hs).2.1 hdead) hrun hstart rfl

/-- A transcript is taken, up to the call of `build`. -/
def takeTranscript : List HostAction :=
  [.setSession 1, .event 0 true (.finalTranscript { turn := 1, text := ascii "Good morning" }),
    .takeJob, .askProvider 1, .fixTurn]

/-- From the prompt to the end of the run. -/
def answerTranscript : List HostAction :=
  [.work {}, .work {}, .runHook, .startStream, .token (ascii "Hi."), .finishStream 1]

/-- The row of another turn. -/
def otherRow : InsertTurnJob :=
  { session := 1, role := .user, text := ascii "Hi", lang := none, startedAt := 0,
    status := .committed, endedAt := none, interruptedAt := none }

theorem run_keepsServing_iff_roomForTwo :
    ∃ h taken, run (watch (step (fun _ => none) fun _ => none) note) (start 2 {} {} {} {}, 0)
        (takeTranscript ++ [.write otherRow, .build] ++ answerTranscript) = some (h, taken) ∧
      h.submitted.map (·.1) = [1] ∧ KeepsServing h taken := by
  have hsubmitted : (run (watch (step (fun _ => none) fun _ => none) note)
      (start 2 {} {} {} {}, 0)
      (takeTranscript ++ [.write otherRow, .build] ++ answerTranscript)).map
        (fun w => w.1.submitted.map (·.1)) = some [1] := by decide +kernel
  obtain ⟨⟨h, taken⟩, hrun, hsubmitted⟩ := Option.map_eq_some_iff.mp hsubmitted
  exact ⟨h, taken, hrun, hsubmitted, (run_keepsServing_iff hrun).mpr (by decide +kernel)⟩

/-- One row fills the queue, and the prompt's read finds no room. -/
theorem fullQueue_terminates :
    ∃ h taken, run (watch (step (fun _ => none) fun _ => none) note) (start 1 {} {} {} {}, 0)
        (takeTranscript ++ [.write otherRow, .build]) = some (h, taken) ∧
      h.terminated = true ∧ h.submitted = [] ∧ h.manager.active ≠ {} ∧
      ¬ KeepsServing h taken := by
  obtain ⟨h, taken, hrun, hdead, hnone, hactive⟩ : ∃ h taken,
      run (watch (step (fun _ => none) fun _ => none) note) (start 1 {} {} {} {}, 0)
        (takeTranscript ++ [.write otherRow, .build]) = some (h, taken) ∧
      h.terminated = true ∧ h.submitted = [] ∧ h.manager.active ≠ {} :=
    ⟨_, _, rfl, rfl, rfl, by decide⟩
  refine ⟨h, taken, hrun, hdead, hnone, hactive, fun hkeeps => ?_⟩
  rw [hkeeps.alive] at hdead
  cases hdead

end DialogueHost

end Acva.Orchestrator

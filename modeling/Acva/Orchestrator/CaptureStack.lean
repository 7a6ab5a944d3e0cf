import Acva.Audio.Capture
import Acva.Audio.HalfDuplexGate
import Acva.Audio.LiveSink
import Acva.Dialogue.Fsm.StateEdges

/-! # The capture stack

The device's callback asks the half-duplex gate and fills the ring, a worker empties the ring
into the pipeline, and the machine's observer tells the gate about the changes of the state.
All of them run at once. When the stack is stopped the device goes first, and so the worker
leaves nothing behind: what the pipeline has processed in the end are the frames that were
captured, each once and in their order.
-/

namespace Acva.Orchestrator

open Acva.Audio Acva.Dialogue Acva.Runs

/-- Where `on_input` stands. -/
inductive OnInputPc
  | outside
  /-- The time of the frame is taken. -/
  | entered (input : CaptureInput) (now : TimePoint)
  /-- In the gate's `should_drop_now`. -/
  | asking (input : CaptureInput) (now : TimePoint)
deriving DecidableEq, Repr

/-- The buffer of the call that is going on. -/
def OnInputPc.input? : OnInputPc → Option CaptureInput
  | outside => none
  | entered input _ => some input
  | asking input _ => some input

/-- Where `run_loop` stands. -/
inductive WorkerPc
  | looping
  | draining
  | done
deriving DecidableEq, Repr

/-- The calls of the observer that a transition has still to make are `pending`. The gate
holds the steady clock. Without half duplex there is neither a gate nor an observer. -/
structure CaptureStack (ρ : Type) where
  halfDuplex : Bool
  host : FsmHost
  pending : List (State × State) := []
  gate : GateHost
  capture : CaptureEngine
  onInput : OnInputPc := .outside
  capturing : Bool := true
  pipeline : AudioPipeline ρ
  running : Bool := true
  worker : WorkerPc := .looping

inductive CaptureStackAction
  /-- The machine's subscription handles an event. -/
  | event (e : Event)
  /-- Another component mints a turn. -/
  | mint
  | observe
  | advance (ns : Nat)
  /-- What `set_speaking` does behind the exchange. -/
  | setSpeaking (a : GateAction)
  | callback (input : CaptureInput)
  | shouldDrop (access : DropAccess)
  /-- The rest of `on_input`. -/
  | take
  /-- One turn of the worker's loop. -/
  | work
  | setTestProbability (probability : ℚ)
  | release (ref : SliceRef)
  | stopCapture
  | stopPipeline

def CaptureStackAction.handed? : CaptureStackAction → Option CaptureInput
  | callback input => some input
  | _ => none

/-- The machine's side, the clock and the gate's own accesses. -/
def CaptureStackAction.isControl : CaptureStackAction → Bool
  | event _ | mint | observe | advance _ | setSpeaking _ | shouldDrop _ => true
  | _ => false

namespace CaptureStack

variable {ρ : Type}

def freshRing : CaptureRing := ⟨0, 0, fun _ => ⟨⟨[], 0⟩, 0, Nat.zero_le _⟩⟩

def build (halfDuplex : Bool) (hangoverMs : Int) (host : FsmHost) (clock : TimePoint)
    (cfg : AudioConfig) (pipeline : AudioPipeline ρ) : CaptureStack ρ where
  halfDuplex := halfDuplex
  host := host
  gate := GateHost.new hangoverMs clock
  capture := { cfg := cfg, ring := freshRing }
  pipeline := pipeline

/-- The machine's thread is in the observer until the gate is told. -/
def observe (s : CaptureStack ρ) : Option (CaptureStack ρ) :=
  match s.pending, s.gate.setSpeaking with
  | (prev, next) :: rest, .outside =>
      let wasSpeaking := decide (prev = .speaking)
      let isSpeaking := decide (next = .speaking)
      if wasSpeaking ≠ isSpeaking then
        (s.gate.step (.exchange isSpeaking)).map fun gate =>
          { s with gate := gate, pending := rest }
      else some { s with pending := rest }
  | _, _ => none

/-- The end of `on_input`, and the gate's answer. -/
def answered (s : CaptureStack ρ) : Option (CaptureInput × TimePoint × Bool) :=
  match s.onInput with
  | .outside => none
  | .entered input now => if s.halfDuplex = true then none else some (input, now, false)
  | .asking input now =>
      match s.gate.shouldDrop with
      | .returned answer => some (input, now, answer)
      | _ => none

/-- The worker stops where a frame's processing does not return. -/
def process (ext : FrontEnd ρ) (frame : CapturedFrame) (ring : CaptureRing)
    (s : CaptureStack ρ) : Option (CaptureStack ρ) :=
  (s.pipeline.step ext (.frame frame.toAudioFrame)).map fun pipeline =>
    { s with capture := { s.capture with ring := ring }, pipeline := pipeline }

def work (ext : FrontEnd ρ) (s : CaptureStack ρ) : Option (CaptureStack ρ) :=
  match s.worker with
  | .looping =>
      if s.running = true then
        match s.capture.ring.pop with
        | some (frame, ring) => s.process ext frame ring
        | none => some s
      else some { s with worker := .draining }
  | .draining =>
      match s.capture.ring.pop with
      | some (frame, ring) => s.process ext frame ring
      | none => some { s with worker := .done }
  | .done => none

def step (ext : FrontEnd ρ) (s : CaptureStack ρ) : CaptureStackAction → Option (CaptureStack ρ)
  | .event e =>
      if s.pending = [] ∧ s.gate.setSpeaking = .outside then
        let host := s.host.onEvent s.gate.clock e
        let calls := host.fsm.stateCalls.drop s.host.fsm.stateCalls.length
        some { s with host := host, pending := if s.halfDuplex = true then calls else [] }
      else none
  | .mint => some { s with host := { s.host with turns := s.host.turns.mint.2 } }
  | .observe => s.observe
  | .advance ns => (s.gate.step (.advance ns)).map fun gate => { s with gate := gate }
  | .setSpeaking a =>
      if a = .readEnd ∨ a = .storeEndedAt ∨ a = .storeInHangover then
        (s.gate.step a).map fun gate => { s with gate := gate }
      else none
  | .callback input =>
      if s.capturing = true ∧ s.onInput = .outside then
        if input.samples.length = 0 then some s
        else some { s with onInput := .entered input s.gate.clock }
      else none
  | .shouldDrop access =>
      match s.onInput, access with
      | .entered input now, .loadSpeaking =>
          if s.halfDuplex = true then
            (s.gate.step (.shouldDrop .loadSpeaking)).map fun gate =>
              { s with gate := gate, onInput := .asking input now }
          else none
      | .asking _ _, .loadSpeaking => none
      | .asking _ _, access =>
          (s.gate.step (.shouldDrop access)).map fun gate => { s with gate := gate }
      | _, _ => none
  | .take =>
      s.answered.map fun (input, now, gateDrops) =>
        { s with
          capture := s.capture.onInput input gateDrops now s.gate.clock
          onInput := .outside }
  | .work => s.work ext
  | .setTestProbability probability =>
      (s.pipeline.step ext (.setTestProbability probability)).map fun pipeline =>
        { s with pipeline := pipeline }
  | .release ref =>
      (s.pipeline.step ext (.release ref)).map fun pipeline => { s with pipeline := pipeline }
  -- The device is stopped only between two calls of `on_input`.
  | .stopCapture => if s.onInput = .outside then some { s with capturing := false } else none
  | .stopPipeline => if s.capturing = false then some { s with running := false } else none

/-! ## What the parts of the stack do -/

/-- What a step is for the capture engine. -/
def captureActions (s : CaptureStack ρ) : CaptureStackAction → List CaptureAction
  | .callback input =>
      if input.samples.length = 0 then [.onInput input false s.gate.clock s.gate.clock] else []
  | .take =>
      s.answered.toList.map fun (input, now, gateDrops) =>
        .onInput input gateDrops now s.gate.clock
  | .work => if s.worker = .looping ∧ s.running = false then [] else [.pop]
  | _ => []

/-- What a step is for the pipeline. -/
def pipelineActions (s : CaptureStack ρ) : CaptureStackAction → List PipelineAction
  | .work =>
      if s.worker = .looping ∧ s.running = false then []
      else s.capture.ring.pop.toList.map fun popped => .frame popped.1.toAudioFrame
  | .setTestProbability probability => [.setTestProbability probability]
  | .release ref => [.release ref]
  | _ => []

structure StackLog where
  handed : List CaptureInput := []
  capture : CaptureLog := {}
  processed : List PipelineAction := []

namespace StackLog

def note (log : StackLog) (s : CaptureStack ρ) (a : CaptureStackAction) : StackLog where
  handed := log.handed ++ a.handed?.toList
  capture := ((s.captureActions a).foldl CaptureEngine.act (s.capture, log.capture)).2
  processed := log.processed ++ s.pipelineActions a

/-- The frames that the pipeline was given. -/
def frames (log : StackLog) : List AudioFrame :=
  log.processed.filterMap fun
    | .frame frame => some frame
    | _ => none

/-- The frames that were captured and had a place in the ring. -/
def pushed (log : StackLog) : List AudioFrame :=
  (log.capture.calls.filterMap (·.2.frame?)).map CapturedFrame.toAudioFrame

end StackLog

variable {ext : FrontEnd ρ} {s s' : CaptureStack ρ} {log : StackLog}

/-! ## The worker -/

/-- What one turn of the loop does. -/
inductive Worked (ext : FrontEnd ρ) (s : CaptureStack ρ) : CaptureStack ρ → Prop
  | frame {frame : CapturedFrame} {ring : CaptureRing} {pipeline : AudioPipeline ρ}
      (hbusy : ¬(s.worker = .looping ∧ s.running = false))
      (hpop : s.capture.ring.pop = some (frame, ring))
      (hframe : s.pipeline.step ext (.frame frame.toAudioFrame) = some pipeline) :
      Worked ext s { s with capture := { s.capture with ring := ring }, pipeline := pipeline }
  | slept (hloop : s.worker = .looping) (hrunning : s.running = true)
      (hpop : s.capture.ring.pop = none) : Worked ext s s
  | left (hloop : s.worker = .looping) (hstopped : s.running = false) :
      Worked ext s { s with worker := .draining }
  | drained (hdrain : s.worker = .draining) (hpop : s.capture.ring.pop = none) :
      Worked ext s { s with worker := .done }

theorem worked_process {frame : CapturedFrame} {ring : CaptureRing}
    (hbusy : ¬(s.worker = .looping ∧ s.running = false))
    (hpop : s.capture.ring.pop = some (frame, ring))
    (h : s.process ext frame ring = some s') : Worked ext s s' := by
  obtain ⟨pipeline, hframe, rfl⟩ := Option.map_eq_some_iff.mp h
  exact .frame hbusy hpop hframe

theorem work_worked (h : s.work ext = some s') : Worked ext s s' := by
  unfold work at h
  cases hworker : s.worker with
  | looping =>
      simp only [hworker] at h
      by_cases hrunning : s.running = true
      · rw [if_pos hrunning] at h
        cases hpop : s.capture.ring.pop with
        | none =>
            simp only [hpop, Option.some.injEq] at h
            exact h ▸ .slept hworker hrunning hpop
        | some popped =>
            simp only [hpop] at h
            exact worked_process (by simp [hrunning]) hpop h
      · rw [if_neg hrunning, Option.some.injEq] at h
        exact h ▸ .left hworker (Bool.not_eq_true _ ▸ hrunning)
  | draining =>
      cases hpop : s.capture.ring.pop with
      | none =>
          simp only [hworker, hpop] at h
          cases h
          exact .drained hworker hpop
      | some popped =>
          simp only [hworker, hpop] at h
          exact worked_process (by simp [hworker]) hpop h
  | done => simp only [hworker, reduceCtorEq] at h

/-! ## Steps that no sample moves in -/

/-- Everything behind the gate is as it was. -/
structure SameAudio (s s' : CaptureStack ρ) : Prop where
  capture : s'.capture = s.capture
  pipeline : s'.pipeline = s.pipeline
  capturing : s'.capturing = s.capturing
  running : s'.running = s.running
  worker : s'.worker = s.worker
  input : s'.onInput.input? = s.onInput.input?

theorem SameAudio.of_gate {gate : Option GateHost} {f : GateHost → CaptureStack ρ}
    (h : gate.map f = some s') (hf : ∀ g, SameAudio s (f g)) : SameAudio s s' := by
  obtain ⟨g, -, rfl⟩ := Option.map_eq_some_iff.mp h
  exact hf g

theorem observe_sameAudio (h : s.observe = some s') : SameAudio s s' := by
  unfold observe at h
  split at h
  · dsimp only at h
    split at h
    · exact .of_gate h fun _ => ⟨rfl, rfl, rfl, rfl, rfl, rfl⟩
    · cases h
      exact ⟨rfl, rfl, rfl, rfl, rfl, rfl⟩
  · cases h

theorem step_sameAudio {a : CaptureStackAction} (ha : a.isControl = true)
    (h : s.step ext a = some s') : SameAudio s s' := by
  cases a with
  | event e =>
      simp only [step] at h
      split at h
      · cases h
        exact ⟨rfl, rfl, rfl, rfl, rfl, rfl⟩
      · cases h
  | mint =>
      cases h
      exact ⟨rfl, rfl, rfl, rfl, rfl, rfl⟩
  | observe => exact observe_sameAudio h
  | advance ns =>
      cases h
      exact ⟨rfl, rfl, rfl, rfl, rfl, rfl⟩
  | setSpeaking a =>
      simp only [step] at h
      split at h
      · exact .of_gate h fun _ => ⟨rfl, rfl, rfl, rfl, rfl, rfl⟩
      · cases h
  | shouldDrop access =>
      simp only [step] at h
      split at h
      · split at h
        · exact .of_gate h fun _ => ⟨rfl, rfl, rfl, rfl, rfl, by simp [*, OnInputPc.input?]⟩
        · cases h
      · cases h
      · exact .of_gate h fun _ => ⟨rfl, rfl, rfl, rfl, rfl, rfl⟩
      · cases h
  | _ => cases ha

theorem note_of_control {a : CaptureStackAction} (ha : a.isControl = true)
    (s : CaptureStack ρ) (log : StackLog) : log.note s a = log := by
  cases a with
  | callback _ => cases ha
  | take => cases ha
  | work => cases ha
  | setTestProbability _ => cases ha
  | release _ => cases ha
  | stopCapture => cases ha
  | stopPipeline => cases ha
  | _ =>
      simp [StackLog.note, CaptureStackAction.handed?, captureActions, pipelineActions]

/-! ## What has become of the frames -/

/-- The engine and its log are what some calls and pops make of a new engine. -/
structure Heard (ext : FrontEnd ρ) (cfg : AudioConfig) (pipeline : AudioPipeline ρ)
    (s : CaptureStack ρ) (log : StackLog) : Prop where
  handed : log.handed = log.capture.calls.map Prod.fst ++ s.onInput.input?.toList
  captured : ∃ actions, CaptureEngine.runAll cfg freshRing actions = (s.capture, log.capture)
  pipelined : run (AudioPipeline.step ext) pipeline log.processed = some s.pipeline
  frames : log.frames = log.capture.popped.map CapturedFrame.toAudioFrame
  capturing : s.running = false → s.capturing = false
  outside : s.capturing = false → s.onInput.input? = none
  running : s.worker ≠ .looping → s.running = false
  empty : s.worker = .done → s.capture.ring.contents = []

theorem heard_build (halfDuplex : Bool) (hangoverMs : Int) (host : FsmHost) (clock : TimePoint)
    (cfg : AudioConfig) (pipeline : AudioPipeline ρ) :
    Heard ext cfg pipeline (build halfDuplex hangoverMs host clock cfg pipeline) {} where
  handed := rfl
  captured := ⟨[], rfl⟩
  pipelined := rfl
  frames := rfl
  capturing h := by cases h
  outside h := by cases h
  running h := absurd rfl h
  empty h := by cases h

variable {cfg : AudioConfig} {start : AudioPipeline ρ}

theorem runAll_concat {ring : CaptureRing} {actions : List CaptureAction}
    {p : CaptureEngine × CaptureLog} (h : CaptureEngine.runAll cfg ring actions = p)
    (more : List CaptureAction) :
    CaptureEngine.runAll cfg ring (actions ++ more) = more.foldl CaptureEngine.act p := by
  rw [CaptureEngine.runAll, List.foldl_append, ← h]
  rfl

theorem Heard.control {a : CaptureStackAction} (hi : Heard ext cfg start s log)
    (ha : a.isControl = true) (h : s.step ext a = some s') :
    Heard ext cfg start s' (log.note s a) := by
  have hsame := step_sameAudio ha h
  rw [note_of_control ha]
  constructor
  · rw [hsame.input]
    exact hi.handed
  · rw [hsame.capture]
    exact hi.captured
  · rw [hsame.pipeline]
    exact hi.pipelined
  · exact hi.frames
  · rw [hsame.running, hsame.capturing]
    exact hi.capturing
  · rw [hsame.capturing, hsame.input]
    exact hi.outside
  · rw [hsame.worker, hsame.running]
    exact hi.running
  · rw [hsame.worker, hsame.capture]
    exact hi.empty

/-- A call of `on_input` ends, and its buffer is a frame, in a count or nothing. -/
theorem Heard.onInput {input : CaptureInput} {handed : List CaptureInput} (now tick : TimePoint)
    (gateDrops : Bool) (hi : Heard ext cfg start s log) (hcapturing : s.capturing = true)
    (hhanded : handed = log.capture.calls.map Prod.fst ++ [input]) :
    Heard ext cfg start
      { s with
        capture := s.capture.onInput input gateDrops now tick
        onInput := .outside }
      { log with
        handed := handed
        capture := (CaptureEngine.act (s.capture, log.capture)
          (.onInput input gateDrops now tick)).2 } := by
  obtain ⟨actions, hactions⟩ := hi.captured
  have hrunning : s.running = true := by
    by_contra hstopped
    simp [hi.capturing (Bool.not_eq_true _ ▸ hstopped)] at hcapturing
  refine ⟨?_, ⟨actions ++ [.onInput input gateDrops now tick], runAll_concat hactions [_]⟩,
    hi.pipelined, hi.frames, hi.capturing, fun _ => rfl, hi.running, fun hdone => ?_⟩
  · rw [hhanded]
    simp [CaptureEngine.act, OnInputPc.input?]
  · have hstopped :=
      hi.running (by rw [show s.worker = .done from hdone]; exact WorkerPc.noConfusion)
    simp [hrunning] at hstopped

theorem Heard.frame {frame : CapturedFrame} {ring : CaptureRing} {p : AudioPipeline ρ}
    (hi : Heard ext cfg start s log) (hpop : s.capture.ring.pop = some (frame, ring))
    (hframe : s.pipeline.step ext (.frame frame.toAudioFrame) = some p) :
    Heard ext cfg start { s with capture := { s.capture with ring := ring }, pipeline := p }
      { log with
        capture := { log.capture with popped := log.capture.popped ++ [frame] }
        processed := log.processed ++ [.frame frame.toAudioFrame] } := by
  obtain ⟨actions, hactions⟩ := hi.captured
  refine ⟨hi.handed, ⟨actions ++ [.pop], ?_⟩, ?_, ?_, hi.capturing, hi.outside, hi.running, fun hdone => ?_⟩
  · rw [runAll_concat hactions, List.foldl_cons, List.foldl_nil, CaptureEngine.act, hpop]
  · rw [run_append, hi.pipelined, Option.bind_some, run_cons, hframe]
    rfl
  · have hold := hi.frames
    simp only [StackLog.frames] at hold ⊢
    rw [List.filterMap_append, hold, List.map_append]
    rfl
  · have hcontents := SpscRing.contents_pop hpop
    rw [hi.empty hdone] at hcontents
    cases hcontents

theorem onInput_of_empty {input : CaptureInput} (hempty : input.samples.length = 0)
    (gateDrops : Bool) (now tick : TimePoint) (e : CaptureEngine) :
    e.onInput input gateDrops now tick = e := by
  cases input with
  | null _ => rfl
  | buffer samples => exact if_pos hempty

theorem answered_input {input : CaptureInput} {now : TimePoint} {gateDrops : Bool}
    (h : s.answered = some (input, now, gateDrops)) : s.onInput.input? = some input := by
  unfold answered at h
  split at h
  case h_1 => cases h
  case h_2 input' now' hpc =>
    split at h
    · cases h
    · cases h
      rw [hpc]
      rfl
  case h_3 input' now' hpc =>
    split at h
    · cases h
      rw [hpc]
      rfl
    · cases h

/-- A turn of the loop that pops nothing leaves the log as it is. -/
theorem note_work_of_none (log : StackLog)
    (h : s.worker = .looping ∧ s.running = false ∨ s.capture.ring.pop = none) :
    log.note s .work = log := by
  by_cases hleft : s.worker = .looping ∧ s.running = false
  · simp [StackLog.note, CaptureStackAction.handed?, captureActions, pipelineActions, hleft]
  · have hpop := h.resolve_left hleft
    simp [StackLog.note, CaptureStackAction.handed?, captureActions, pipelineActions, hleft, hpop,
      CaptureEngine.act]

theorem Heard.work (hi : Heard ext cfg start s log) (h : s.work ext = some s') :
    Heard ext cfg start s' (log.note s .work) := by
  cases work_worked h with
  | @frame frame ring p hbusy hpop hframe =>
      have hnote : log.note s .work =
          { log with
            capture := { log.capture with popped := log.capture.popped ++ [frame] }
            processed := log.processed ++ [.frame frame.toAudioFrame] } := by
        simp [StackLog.note, CaptureStackAction.handed?, captureActions, pipelineActions, hbusy,
          CaptureEngine.act, hpop]
      rw [hnote]
      exact hi.frame hpop hframe
  | slept hloop hrunning hpop =>
      rw [note_work_of_none log (.inr hpop)]
      exact hi
  | left hloop hstopped =>
      rw [note_work_of_none log (.inl ⟨hloop, hstopped⟩)]
      exact { hi with running := fun _ => hstopped, empty := fun hdone => by cases hdone }
  | drained hdrain hpop =>
      rw [note_work_of_none log (.inr hpop)]
      exact
        { hi with
          running := fun _ => hi.running (by rw [hdrain]; exact WorkerPc.noConfusion)
          empty := fun _ => SpscRing.contents_pop_none hpop }

/-- Another thread calls the pipeline. -/
theorem Heard.call {a : PipelineAction} {p : AudioPipeline ρ}
    (hi : Heard ext cfg start s log) (ha : ∀ frame, a ≠ .frame frame)
    (hstep : s.pipeline.step ext a = some p) :
    Heard ext cfg start { s with pipeline := p }
      { log with processed := log.processed ++ [a] } := by
  refine ⟨hi.handed, hi.captured, ?_, ?_, hi.capturing, hi.outside, hi.running, hi.empty⟩
  · rw [run_append, hi.pipelined, Option.bind_some, run_cons, hstep]
    rfl
  · have hold := hi.frames
    simp only [StackLog.frames] at hold ⊢
    rw [List.filterMap_append, hold]
    cases a with
    | frame frame => exact absurd rfl (ha frame)
    | _ => exact List.append_nil _

theorem Heard.step {a : CaptureStackAction} (hi : Heard ext cfg start s log)
    (h : s.step ext a = some s') : Heard ext cfg start s' (log.note s a) := by
  cases a with
  | callback input =>
      simp only [CaptureStack.step] at h
      split at h
      case isFalse => cases h
      case isTrue hfree =>
        obtain ⟨hcapturing, houtside⟩ := hfree
        have hhanded : log.handed ++ [input] = log.capture.calls.map Prod.fst ++ [input] := by
          rw [hi.handed, houtside]
          simp [OnInputPc.input?]
        split at h
        case isTrue hempty =>
          have hnew := hi.onInput s.gate.clock s.gate.clock false hcapturing hhanded
          cases h
          rw [onInput_of_empty hempty, ← houtside] at hnew
          simpa only [StackLog.note, CaptureStackAction.handed?, Option.toList_some,
            captureActions, pipelineActions, if_pos hempty, List.foldl_cons, List.foldl_nil,
            List.append_nil] using hnew
        case isFalse hsome =>
          have hnote : log.note s (.callback input) =
              { log with handed := log.handed ++ [input] } := by
            simp [StackLog.note, CaptureStackAction.handed?, captureActions, pipelineActions, hsome]
          cases h
          rw [hnote]
          refine { hi with handed := hhanded, outside := fun hstopped => ?_ }
          rw [show s.capturing = false from hstopped] at hcapturing
          cases hcapturing
  | take =>
      obtain ⟨⟨input, now, gateDrops⟩, hanswer, rfl⟩ := Option.map_eq_some_iff.mp h
      have hinput := answered_input hanswer
      have hcapturing : s.capturing = true := by
        by_contra hstopped
        rw [hi.outside (Bool.not_eq_true _ ▸ hstopped)] at hinput
        cases hinput
      have hhanded := hi.handed
      rw [hinput] at hhanded
      have hnew := hi.onInput now s.gate.clock gateDrops hcapturing hhanded
      simpa only [StackLog.note, CaptureStackAction.handed?, Option.toList_none, captureActions,
        pipelineActions, hanswer, Option.toList_some, List.map_cons, List.map_nil,
        List.foldl_cons, List.foldl_nil, List.append_nil] using hnew
  | work => exact hi.work h
  | setTestProbability probability =>
      have hnote : log.note s (.setTestProbability probability) =
          { log with processed := log.processed ++ [.setTestProbability probability] } := by
        simp [StackLog.note, CaptureStackAction.handed?, captureActions, pipelineActions]
      cases h
      rw [hnote]
      exact hi.call (fun _ => PipelineAction.noConfusion) rfl
  | release ref =>
      have hnote : log.note s (.release ref) =
          { log with processed := log.processed ++ [.release ref] } := by
        simp [StackLog.note, CaptureStackAction.handed?, captureActions, pipelineActions]
      cases h
      rw [hnote]
      exact hi.call (fun _ => PipelineAction.noConfusion) rfl
  | stopCapture =>
      simp only [CaptureStack.step] at h
      split at h
      case isFalse => cases h
      case isTrue houtside =>
        have hnote : log.note s .stopCapture = log := by
          simp [StackLog.note, CaptureStackAction.handed?, captureActions, pipelineActions]
        cases h
        rw [hnote]
        exact { hi with capturing := fun _ => rfl, outside := fun _ => by rw [houtside]; rfl }
  | stopPipeline =>
      simp only [CaptureStack.step] at h
      split at h
      case isFalse => cases h
      case isTrue hstopped =>
        have hnote : log.note s .stopPipeline = log := by
          simp [StackLog.note, CaptureStackAction.handed?, captureActions, pipelineActions]
        cases h
        rw [hnote]
        exact { hi with capturing := fun _ => hstopped, running := fun _ => rfl }
  | event e => exact hi.control rfl h
  | mint => exact hi.control rfl h
  | observe => exact hi.control rfl h
  | advance ns => exact hi.control rfl h
  | setSpeaking a => exact hi.control rfl h
  | shouldDrop access => exact hi.control rfl h

/-! ## Every run -/

/-- The pipeline is what it makes of the frames it was given. These and what the ring holds
are the frames that were pushed, in their order, and all of them once the worker is done. Of
every buffer that the device handed over the log says what has become of it. -/
structure ProcessesCaptured (ext : FrontEnd ρ) (start : AudioPipeline ρ) (s : CaptureStack ρ)
    (log : StackLog) : Prop where
  pipelined : run (AudioPipeline.step ext) start log.processed = some s.pipeline
  inOrder : log.frames ++ s.capture.ring.contents.map CapturedFrame.toAudioFrame = log.pushed
  noneLeft : s.worker = .done → log.frames = log.pushed
  handed : log.handed = log.capture.calls.map Prod.fst ++ s.onInput.input?.toList
  covered : ∀ call ∈ log.capture.calls,
    call.2.Covers (call.1.samples.take kMaxCaptureSamples)
  gated : s.capture.framesGated = (log.capture.calls.map (·.2.gatedCount)).sum
  overruns : s.capture.ringOverruns = log.capture.calls.countP (·.2.isOverrun)

theorem Heard.processesCaptured (hi : Heard ext cfg start s log) :
    ProcessesCaptured ext start s log := by
  obtain ⟨actions, hactions⟩ := hi.captured
  have hnoted := CaptureEngine.noted_runAll cfg freshRing actions
  rw [hactions] at hnoted
  have hinOrder : log.frames ++ s.capture.ring.contents.map CapturedFrame.toAudioFrame =
      log.pushed := by
    have hfresh : freshRing.contents = [] := rfl
    have hframes := hnoted.frames
    rw [hfresh, List.nil_append] at hframes
    rw [StackLog.pushed, hframes, List.map_append, hi.frames]
  exact
    { pipelined := hi.pipelined
      inOrder := hinOrder
      noneLeft := fun hdone => by
        rwa [hi.empty hdone, List.map_nil, List.append_nil] at hinOrder
      handed := hi.handed
      covered := hnoted.covered
      gated := hnoted.gated
      overruns := hnoted.overruns }

/-- Whatever the threads do and in whatever order, from a new stack on. -/
theorem run_processesCaptured {halfDuplex : Bool} {hangoverMs : Int} {host : FsmHost}
    {clock : TimePoint} {as : List CaptureStackAction}
    (hrun : run (watch (step ext) StackLog.note)
      (build halfDuplex hangoverMs host clock cfg start, {}) as = some (s, log)) :
    ProcessesCaptured ext start s log := by
  refine (run_preserves (fun w => Heard ext cfg start w.1 w.2) (fun w a w' hw hs => ?_) hrun
    (heard_build halfDuplex hangoverMs host clock cfg start)).processesCaptured
  obtain ⟨hstep, hnote⟩ := watch_eq_some.mp hs
  rw [hnote]
  exact hw.step hstep

/-- The second of two buffers is still in the ring when the stack is stopped. -/
def stoppedBehindTwo : List CaptureStackAction :=
  [.callback (.buffer [1, 2]), .shouldDrop .loadSpeaking, .shouldDrop .loadInHangover, .take, .work,
    .advance 5, .callback (.buffer [3, 4]), .shouldDrop .loadSpeaking,
    .shouldDrop .loadInHangover, .take, .stopCapture, .stopPipeline, .work, .work, .work]

theorem run_processesCaptured_stopped :
    ∃ s log, run (watch (step AudioPipeline.passThrough) StackLog.note)
      (build true 200 {} 0 ⟨1000, by decide⟩
        (AudioPipeline.create AudioPipeline.slowRate false ()), {}) stoppedBehindTwo =
          some (s, log) ∧
      s.worker = .done ∧ log.frames = [⟨[1, 2], 0⟩, ⟨[3, 4], 5⟩] ∧
      ProcessesCaptured AudioPipeline.passThrough
        (AudioPipeline.create AudioPipeline.slowRate false ()) s log := by
  have hends : (run (watch (step AudioPipeline.passThrough) StackLog.note)
      (build true 200 {} 0 ⟨1000, by decide⟩
        (AudioPipeline.create AudioPipeline.slowRate false ()), {}) stoppedBehindTwo).map
          (fun w => (w.1.worker, w.2.frames)) =
      some (.done, [⟨[1, 2], 0⟩, ⟨[3, 4], 5⟩]) := by
    decide +kernel
  obtain ⟨⟨s, log⟩, hrun, hends⟩ := Option.map_eq_some_iff.mp hends
  obtain ⟨hdone, hframes⟩ := Prod.mk.inj hends
  exact ⟨s, log, hrun, hdone, hframes, run_processesCaptured hrun⟩

end CaptureStack

end Acva.Orchestrator

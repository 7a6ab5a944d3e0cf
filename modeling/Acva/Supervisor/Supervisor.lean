import Acva.Core.Runs
import Acva.Supervisor.Service

/-! # The supervisor

The monitors' threads apply probe results whenever they like. A call of
`evaluate_pipeline` reads the clock before it waits for the mutex, which keeps other
calls out but no monitor: it samples the services one after the other, and stores the
verdict at the end. So each of these is a step of its own.
-/

namespace Acva

inductive PipelineState
  | ok
  | failed
  | noConfiguredCriticalServices
deriving DecidableEq, Repr

/-- When a service was first seen unhealthy. -/
structure UnhealthyAt where
  name : Bytes
  since : TimePoint
deriving DecidableEq, Repr

/-- A call of `evaluate_pipeline` that holds the mutex; it has sampled the first `next`
monitors. -/
structure Evaluation where
  now : TimePoint
  next : Nat := 0
  anyCritical : Bool := false
  anyFailed : Bool := false
deriving DecidableEq, Repr

structure Supervisor where
  pipelineFailGraceSeconds : Nat := 30
  monitors : List ServiceMonitor := []
  unhealthySince : List UnhealthyAt := []
  pipelineState : PipelineState := .noConfiguredCriticalServices
  clock : TimePoint := 0
  /-- The calls of `evaluate_pipeline` that have read the clock and wait for the mutex. -/
  waiting : List TimePoint := []
  evaluating : Option Evaluation := none
  published : List Event := []
deriving DecidableEq, Repr

inductive SupervisorAction
  /-- Nanoseconds pass. -/
  | tick (elapsed : Nat)
  /-- The `i`th monitor applies a result. -/
  | apply (i : Nat) (r : ProbeResult)
  /-- A call of `evaluate_pipeline` reads the clock. -/
  | evaluate
  /-- The `i`th of the waiting calls gets the mutex. -/
  | lock (i : Nat)
  /-- The call looks at the next monitor. -/
  | sample
  /-- The call stores its verdict and returns. -/
  | store
deriving DecidableEq, Repr

/-- One round of the loop over the monitors, with the marks it leaves. -/
def Evaluation.sample (grace : Int) (snap : ServiceSnapshot) (marks : List UnhealthyAt)
    (e : Evaluation) : Evaluation × List UnhealthyAt :=
  let e := { e with next := e.next + 1 }
  if snap.failPipelineIfDown = false then (e, marks)
  else if snap.state = .notConfigured then (e, marks)
  else
    let e := { e with anyCritical := true }
    let found := marks.find? fun u => u.name = snap.name
    if snap.state = .unhealthy then
      let since := (found.map (·.since)).getD e.now
      ({ e with anyFailed := e.anyFailed || decide (grace ≤ e.now - since) },
        if found.isSome = true then marks else marks ++ [{ name := snap.name, since := e.now }])
    else (e, marks.eraseP fun u => u.name = snap.name)

def Evaluation.verdict (e : Evaluation) : PipelineState :=
  if e.anyCritical = false then .noConfiguredCriticalServices
  else if e.anyFailed = true then .failed else .ok

/-- A monitor with the name is replaced. -/
def register (svc : ServiceConfig) : List ServiceMonitor → List ServiceMonitor
  | [] => [.ofConfig svc]
  | m :: rest => if m.name = svc.name then .ofConfig svc :: rest else m :: register svc rest

namespace Supervisor

/-- The grace window in nanoseconds. -/
def grace (s : Supervisor) : Int := s.pipelineFailGraceSeconds * 1000000000

def registerService (svc : ServiceConfig) (s : Supervisor) : Supervisor :=
  { s with monitors := register svc s.monitors }

/-- A supervisor with all its services registered, as `start` finds it. -/
def registered (graceSeconds : Nat) (svcs : List ServiceConfig) : Supervisor :=
  svcs.foldl (fun s svc => s.registerService svc) { pipelineFailGraceSeconds := graceSeconds }

def pipelineFailed : Event :=
  .error
    { component := ascii "supervisor"
      message := ascii "pipeline failed: critical service unhealthy past grace" }

/-- The end of `evaluate_pipeline`. -/
def storeVerdict (next : PipelineState) (s : Supervisor) : Supervisor :=
  { s with
    pipelineState := next
    evaluating := none
    published :=
      if s.pipelineState ≠ next ∧ next = .failed then s.published ++ [pipelineFailed]
      else s.published }

def step (s : Supervisor) : SupervisorAction → Option Supervisor
  | .tick elapsed => some { s with clock := s.clock + elapsed }
  | .apply i r =>
      (s.monitors[i]?).bind fun m =>
        -- A dormant monitor has no thread.
        if m.cfg.healthUrl = [] then none
        else
          let (m', events) := m.applyResult s.clock r
          some { s with
            monitors := s.monitors.set i m', published := s.published ++ events }
  | .evaluate => some { s with waiting := s.waiting ++ [s.clock] }
  | .lock i =>
      if s.evaluating.isSome = true then none
      else
        (s.waiting[i]?).map fun now =>
          { s with waiting := s.waiting.eraseIdx i, evaluating := some { now := now } }
  | .sample =>
      s.evaluating.bind fun e =>
        (s.monitors[e.next]?).map fun m =>
          let (e', marks) := e.sample s.grace m.snapshot s.unhealthySince
          { s with evaluating := some e', unhealthySince := marks }
  | .store =>
      s.evaluating.bind fun e =>
        if e.next < s.monitors.length then none else some (s.storeVerdict e.verdict)

end Supervisor

end Acva

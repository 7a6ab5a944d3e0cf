import Acva.Event.Event

/-! # One monitored service

The probe thread applies one result after the other. A result and the snapshot are
taken under the monitor's own mutex, and nobody else writes the state, so that the
event which follows a change belongs to the same step. How long the thread waits
between two probes is left out.
-/

namespace Acva

/-- Internal state of a service monitor. -/
inductive ServiceState
  | notConfigured
  | probing
  | healthy
  | degraded
  | unhealthy
deriving DecidableEq, Repr

def toHealthState : ServiceState → HealthState
  | .notConfigured => .unknown
  | .probing => .unknown
  | .healthy => .healthy
  | .degraded => .degraded
  | .unhealthy => .unhealthy

/-- The result of one probe; the HTTP status is 0 when no response was received, and the
latency is in milliseconds. -/
structure ProbeResult where
  ok : Bool := false
  httpStatus : Int := 0
  latency : Int := 0
  bodyExcerpt : Bytes := []
deriving DecidableEq, Repr

structure ServiceConfig where
  name : Bytes
  /-- Where it is empty, the service is never probed. -/
  healthUrl : Bytes
  failPipelineIfDown : Bool := true
  degradedMaxFailures : UInt32 := 3
deriving DecidableEq, Repr

structure ServiceSnapshot where
  name : Bytes
  state : ServiceState
  lastProbeAt : TimePoint
  lastOkAt : TimePoint
  consecutiveFailures : UInt32
  totalProbes : UInt64
  totalFailures : UInt64
  lastHttpStatus : Int
  lastError : Bytes
  lastLatency : Int
  failPipelineIfDown : Bool
deriving DecidableEq, Repr

structure ServiceMonitor where
  cfg : ServiceConfig
  state : ServiceState
  lastProbeAt : TimePoint := 0
  lastOkAt : TimePoint := 0
  consecutiveFailures : UInt32 := 0
  totalProbes : UInt64 := 0
  totalFailures : UInt64 := 0
  lastHttpStatus : Int := 0
  lastError : Bytes := []
  lastLatency : Int := 0
deriving DecidableEq, Repr

namespace ServiceMonitor

/-- A monitor as it is constructed. -/
def ofConfig (cfg : ServiceConfig) : ServiceMonitor where
  cfg := cfg
  state := if cfg.healthUrl = [] then .notConfigured else .probing

def name (m : ServiceMonitor) : Bytes := m.cfg.name

def snapshot (m : ServiceMonitor) : ServiceSnapshot where
  name := m.cfg.name
  state := m.state
  lastProbeAt := m.lastProbeAt
  lastOkAt := m.lastOkAt
  consecutiveFailures := m.consecutiveFailures
  totalProbes := m.totalProbes
  totalFailures := m.totalFailures
  lastHttpStatus := m.lastHttpStatus
  lastError := m.lastError
  lastLatency := m.lastLatency
  failPipelineIfDown := m.cfg.failPipelineIfDown

/-- `publish_if_changed`: an event, unless the two states look the same from outside. -/
def publishIfChanged (prev : ServiceState) (m : ServiceMonitor) : List Event :=
  if prev = m.state then []
  else if toHealthState prev = toHealthState m.state then []
  else
    [.healthChanged
      { service := m.cfg.name, state := toHealthState m.state, detail := m.lastError }]

/-- The locked section of `apply_result`. -/
def note (now : TimePoint) (r : ProbeResult) (m : ServiceMonitor) : ServiceMonitor :=
  let m := { m with
    totalProbes := m.totalProbes + 1
    lastProbeAt := now
    lastHttpStatus := r.httpStatus
    lastLatency := r.latency
    lastError := r.bodyExcerpt }
  if r.ok = true then
    { m with consecutiveFailures := 0, lastOkAt := now, state := .healthy }
  else
    let failures := m.consecutiveFailures + 1
    { m with
      consecutiveFailures := failures
      totalFailures := m.totalFailures + 1
      state := if m.cfg.degradedMaxFailures ≤ failures then .unhealthy else .degraded }

/-- The monitor after a result, and what it publishes. -/
def applyResult (now : TimePoint) (r : ProbeResult) (m : ServiceMonitor) :
    ServiceMonitor × List Event :=
  (m.note now r, (m.note now r).publishIfChanged m.state)

@[simp] theorem applyResult_cfg (now : TimePoint) (r : ProbeResult) (m : ServiceMonitor) :
    (m.applyResult now r).1.cfg = m.cfg := by
  unfold applyResult note
  dsimp only
  split <;> rfl

end ServiceMonitor

end Acva

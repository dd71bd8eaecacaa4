import GpuWorkerPool.Admission

/-!
The closed request models of the worker routes, after their fields have been read: a body is what
the fields hold, and a request is a body within the declared bounds. The patterns are those of the
request models, whose `$` matches at the very end of a text only.
-/

namespace GpuWorkerPool

open Base

def maxWorkerIdLength : Nat := 128
def maxWorkerGpus : Nat := 16
def maxGpuNameLength : Nat := 128
def maxPluginIdLength : Nat := 64
def maxPluginVersionLength : Nat := 32
def maxRuntimeVersions : Nat := 32
def maxRuntimeVersionKeyLength : Nat := 96
def maxLabels : Nat := 16
def maxCapabilities : Nat := 32

/-- `Field(min_length=minimum, max_length=maximum)` -/
def lengthWithin (minimum maximum : Nat) (text : String) : Bool :=
  minimum ≤ text.length && text.length ≤ maximum

/-- `Field(ge=minimum, le=maximum)` -/
def within (minimum maximum : Int) (n : Int) : Bool := minimum ≤ n && n ≤ maximum

/-- `CapabilityIdField` -/
def capabilityIdField (capabilityId : String) : Bool :=
  capabilityId.length ≤ maxCapabilityIdLength && capabilityId.toList.getLast? ≠ some '\n' &&
    capabilityIdPattern capabilityId.toList

/-- `WorkerCapabilityDto` -/
def WorkerCapability.withinBounds (capability : WorkerCapability) : Bool :=
  capabilityIdField capability.capabilityId && lengthWithin 1 maxPluginIdLength capability.pluginId &&
    lengthWithin 1 maxPluginVersionLength capability.pluginVersion &&
      within 1 64 capability.concurrency

/-- `GpuTelemetryDto` -/
def GpuTelemetry.withinBounds (gpu : GpuTelemetry) : Bool :=
  within 0 63 gpu.index && lengthWithin 1 maxGpuNameLength gpu.name &&
    gpu.utilizationPct.all (within 0 100) && gpu.memoryUsedMb.all (within 0 1000000) &&
      gpu.memoryTotalMb.all (within 0 1000000)

/-- The bounds of `WorkerHeartbeatRequest`, on the registration it becomes. -/
def WorkerRegistration.withinBounds (r : WorkerRegistration) : Bool :=
  lengthWithin 1 maxWorkerIdLength r.workerId && workerIdPattern r.workerId &&
    (1 ≤ r.capabilities.length && r.capabilities.length ≤ maxCapabilities) &&
    r.capabilities.all WorkerCapability.withinBounds &&
    r.tenantId.all (lengthWithin 1 maxTenantIdLength) && r.gpuModel.all (lengthWithin 0 64) &&
    r.vramMb.all (within 0 1000000) && r.runtimeVersions.rows.length ≤ maxRuntimeVersions &&
    (r.runtimeVersions.rows.all fun entry =>
      lengthWithin 1 maxRuntimeVersionKeyLength entry.1 && lengthWithin 1 64 entry.2) &&
    r.labels.length ≤ maxLabels && r.labels.all (lengthWithin 1 32) && within 0 64 r.activeLeases &&
    r.gpus.length ≤ maxWorkerGpus && r.gpus.all GpuTelemetry.withinBounds &&
    r.busyJobId.all (lengthWithin 0 maxJobIdLength)

/-- An accepted heartbeat body. -/
structure WorkerHeartbeatRequest where
  toRegistration : WorkerRegistration
  withinBounds : toRegistration.withinBounds

end GpuWorkerPool

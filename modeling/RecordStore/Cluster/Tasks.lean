import RecordStore.Core.Values

/-!
# Cluster.Tasks — replica movement tasks

`tasks.rs`.  Repair, drain and rebalance share one durable queue.  A worker claims a task under a lease
and is granted a fence token, which every later claim moves on.
-/

namespace RecordStore.Cluster

open RecordStore.Core

/-- Why a replica needs to move or be rebuilt. -/
inductive ReplicaTaskKind where
  | repair
  | repairCorrupt
  | drain
  | deviceFailed
  | rebalance
  | rebalanceDomain
  | delete
  deriving DecidableEq

namespace ReplicaTaskKind

/-- `task_kind_code`, appended to when a kind is added. -/
def code : ReplicaTaskKind → UInt8
  | repair => 0
  | repairCorrupt => 1
  | drain => 2
  | rebalance => 3
  | rebalanceDomain => 4
  | delete => 5
  | deviceFailed => 6

end ReplicaTaskKind

/-- Risk-ordered task priority.  Lower ranks run first. -/
inductive ReplicaTaskPriority where
  | unavailable
  | critical
  | high
  | normal
  | low
  deriving DecidableEq

def ReplicaTaskPriority.rank : ReplicaTaskPriority → UInt8
  | unavailable => 0
  | critical => 1
  | high => 2
  | normal => 3
  | low => 4

/-- Classifies repair urgency from replica accounting. -/
def ReplicaTaskPriority.classify (kind : ReplicaTaskKind) (healthy desired : UInt32) : ReplicaTaskPriority :=
  match kind with
  | .delete => normal
  | .rebalance | .rebalanceDomain => low
  | .drain => if healthy ≤ 1 then critical else normal
  | .deviceFailed => if healthy = 0 then unavailable else if healthy = 1 ∧ 1 < desired then critical else high
  | .repair | .repairCorrupt =>
    if healthy = 0 then unavailable
    else if healthy = 1 ∧ 1 < desired then critical
    else if healthy < desired then high
    else low

/-- Execution state of one replica movement task. -/
inductive ReplicaTaskState where
  | queued
  | running (nodeId : NodeId) (startedAt leaseExpiresAt : DateTime)
  | completed (completedAt : DateTime)
  | parked (parkedAt : DateTime) (reason : String)
  | cancelled (cancelledAt : DateTime) (reason : String)
  deriving DecidableEq

namespace ReplicaTaskState

/-- Whether the task still needs work. -/
def active : ReplicaTaskState → Bool
  | queued | running .. => true
  | _ => false

end ReplicaTaskState

/-- One durable, restart-safe replica movement task. -/
structure ReplicaTask where
  id : ReplicaTaskId
  objectId : ObjectId
  kind : ReplicaTaskKind
  priority : ReplicaTaskPriority
  sourceNode : Option NodeId
  sourceDevice : Option DeviceId
  targetNode : Option NodeId
  targetDevice : Option DeviceId
  operationId : Option ClusterOperationId
  size : UInt64
  fence : UInt64
  state : ReplicaTaskState
  attempts : UInt32
  lastError : Option String
  createdAt : DateTime
  updatedAt : DateTime
  deriving DecidableEq

/-- `TimeDelta::try_seconds(i64::try_from(lease_seconds).unwrap_or(600))`, or zero, in seconds. -/
def leaseDelta (leaseSeconds : UInt64) : Int :=
  let seconds : Int := if leaseSeconds.toNat < 2 ^ 63 then leaseSeconds.toNat else 600
  if seconds ≤ (2 ^ 63 - 1) / 1000 then seconds else 0

/-- `now + lease`, which panics outside of the representable range. -/
def addSeconds (t : DateTime) (seconds : Int) : Option DateTime :=
  if h : -8334601228800 ≤ t.seconds + seconds ∧ t.seconds + seconds ≤ 8210266876799 then
    some ⟨t.seconds + seconds, t.nanoseconds, h, t.nanoseconds_lt⟩
  else none

namespace ReplicaTask

/-- Creates a queued task under a given identifier. -/
def queued (id : ReplicaTaskId) (objectId : ObjectId) (kind : ReplicaTaskKind) (priority : ReplicaTaskPriority)
    (size : UInt64) (now : DateTime) : ReplicaTask where
  id := id
  objectId := objectId
  kind := kind
  priority := priority
  sourceNode := none
  sourceDevice := none
  targetNode := none
  targetDevice := none
  operationId := none
  size := size
  fence := 0
  state := .queued
  attempts := 0
  lastError := none
  createdAt := now
  updatedAt := now

/-- Claims the task for a node under a lease, issuing a fresh fence token. -/
def claim (t : ReplicaTask) (node : NodeId) (leaseExpiresAt now : DateTime) : ReplicaTask :=
  { t with
    fence := saturatingAdd t.fence 1
    state := .running node now leaseExpiresAt
    updatedAt := now }

/-- Whether this node still holds the task under the given token. -/
def holdsClaim (t : ReplicaTask) (node : NodeId) (fence : UInt64) : Bool :=
  t.fence == fence && fence != 0 &&
    match t.state with
    | .running owner _ _ => owner == node
    | _ => false

/-- Returns the task to the queue, for example after a lease expired. -/
def requeue (t : ReplicaTask) (reason : Option String) (now : DateTime) : ReplicaTask :=
  { t with
    state := .queued
    lastError := reason.orElse fun _ => t.lastError
    updatedAt := now }

/-- Records a failure, parking the task once the attempt budget is spent. -/
def fail (t : ReplicaTask) (reason : String) (maximumAttempts : UInt32) (now : DateTime) : ReplicaTask :=
  let attempts := if t.attempts = 0xffffffff then t.attempts else t.attempts + 1
  { t with
    attempts := attempts
    lastError := some reason
    updatedAt := now
    state := if maximumAttempts ≤ attempts then .parked now reason else .queued }

def complete (t : ReplicaTask) (now : DateTime) : ReplicaTask := { t with state := .completed now, updatedAt := now }

def cancel (t : ReplicaTask) (reason : String) (now : DateTime) : ReplicaTask :=
  { t with state := .cancelled now reason, updatedAt := now }

/-- A token is granted to whoever claims. -/
theorem holdsClaim_claim (t : ReplicaTask) (node : NodeId) (leaseExpiresAt now : DateTime) :
    (t.claim node leaseExpiresAt now).holdsClaim node (t.claim node leaseExpiresAt now).fence := by
  have hpos : (saturatingAdd t.fence 1).toNat ≠ 0 := by
    rw [saturatingAdd_toNat, UInt64.toNat_one]
    omega
  have hne : saturatingAdd t.fence 1 ≠ 0 := fun h => hpos (h ▸ rfl)
  simpa [holdsClaim, claim] using hne

end ReplicaTask

end RecordStore.Cluster

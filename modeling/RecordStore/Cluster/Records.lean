import RecordStore.Cluster.Topology

/-!
# Cluster.Records — identity, policies, operations and credentials

The records of the cluster catalog that no placement decision reads: `command.rs`, `policy.rs`,
`credentials.rs` and the operations of `tasks.rs`.
-/

namespace RecordStore.Cluster

open RecordStore.Core

/-- Immutable cluster identity, and which rebuild of its authority this is. -/
structure ClusterIdentity where
  clusterId : ClusterId
  clusterFormatVersion : UInt32
  createdAt : DateTime
  recoveryGeneration : UInt32
  recoveryId : Option Uuid
  recoveredAt : Option DateTime
  deriving DecidableEq

/-! ## Storage policies -/

/-- How a class achieves durability. -/
inductive DurabilityStrategy where
  | replication (replicas : UInt8)
  | erasureCoding (profile : ErasureProfile)
  deriving DecidableEq

/-- What a storage class means. -/
structure StoragePolicy where
  storageClass : StorageClass
  description : Option String
  -- the device kinds this class accepts; none accepts anything
  allowedKinds : List DeviceKind
  durability : DurabilityStrategy
  failureDomain : FailureDomainScope
  strictFailureDomains : Bool
  minimumFreeSpacePercent : UInt8
  deriving DecidableEq

namespace DeviceKind

/-- `Debug`. -/
def debug : DeviceKind → String
  | nvme => "Nvme"
  | sataSsd => "SataSsd"
  | sasSsd => "SasSsd"
  | sataHdd => "SataHdd"
  | sasHdd => "SasHdd"
  | ssd => "Ssd"
  | hdd => "Hdd"
  | blockDevice => "BlockDevice"
  | raidLogicalVolume => "RaidLogicalVolume"
  | cloudBlockVolume => "CloudBlockVolume"
  | filesystemDirectory => "FilesystemDirectory"
  | unknown => "Unknown"

end DeviceKind

/-- The first kind that an earlier one repeats. -/
def repeatedKind : List DeviceKind → List DeviceKind → Option DeviceKind
  | _, [] => none
  | seen, kind :: rest => if kind ∈ seen then some kind else repeatedKind (kind :: seen) rest

namespace StoragePolicy

/-- Why the policy is refused, if it is. -/
def invalid? (p : StoragePolicy) : Option String :=
  match p.durability with
  | .erasureCoding _ =>
    some "erasure coding is not available as a bucket durability strategy in this release; the coding engine exists but no write path uses it"
  | .replication replicas =>
    if replicas = 0 ∨ replicas > 16 then some "replication factor must be between 1 and 16"
    else if p.minimumFreeSpacePercent ≥ 100 then some "minimum free space must be below 100 percent"
    else (repeatedKind [] p.allowedKinds).map fun kind => "device kind " ++ kind.debug ++ " is listed more than once"

/-- Whether a device may hold data for this class. -/
def acceptsDevice (p : StoragePolicy) (d : DeviceRecord) : Bool :=
  decide (d.storageClass = p.storageClass) && (p.allowedKinds.isEmpty || decide (d.kind ∈ p.allowedKinds))

/-- The bytes to keep free on a device of the given usable size. -/
def reservedBytes (p : StoragePolicy) (usableBytes : UInt64) : UInt64 :=
  if p.minimumFreeSpacePercent = 0 then 0
  else UInt64.ofNat (min (usableBytes.toNat * p.minimumFreeSpacePercent.toNat / 100) (2 ^ 64 - 1))

end StoragePolicy

/-! ## Long-running operations -/

inductive ClusterOperationKind where
  | drain
  | rebalance
  | decommission
  deriving DecidableEq

inductive ClusterOperationState where
  | planning
  | moving
  | verifying
  | paused
  | completed
  | cancelled
  | failed
  deriving DecidableEq

/-- Whether the operation is still outstanding. -/
def ClusterOperationState.active : ClusterOperationState → Bool
  | planning | moving | verifying | paused => true
  | _ => false

structure OperationProgress where
  objectsRemaining : UInt64
  bytesRemaining : UInt64
  objectsMoved : UInt64
  bytesMoved : UInt64
  replicasMoving : UInt32
  tasksParked : UInt32
  deriving DecidableEq

/-- Durable record of one long-running cluster operation. -/
structure ClusterOperation where
  id : ClusterOperationId
  kind : ClusterOperationKind
  nodeId : Option NodeId
  state : ClusterOperationState
  progress : OperationProgress
  startedAt : DateTime
  updatedAt : DateTime
  completedAt : Option DateTime
  message : Option String
  deriving DecidableEq

/-! ## Credentials -/

/-- A replicated join token, without its secret. -/
structure JoinToken where
  id : JoinTokenId
  tokenDigest : List UInt8
  createdAt : DateTime
  expiresAt : DateTime
  maximumUses : UInt32
  uses : UInt32
  revoked : Bool
  description : String
  deriving DecidableEq

namespace JoinToken

/-- Whether the token can never be used again. -/
def spent (t : JoinToken) (now : DateTime) : Bool :=
  t.revoked || decide (t.uses ≥ t.maximumUses) || decide (t.expiresAt ≤ now)

/-- Records a successful use. -/
def consume (t : JoinToken) : JoinToken := { t with uses := if t.uses = 0xffffffff then t.uses else t.uses + 1 }

end JoinToken

/-- The replicated record for one node's internal RPC credential. -/
structure NodeCredential where
  id : NodeCredentialId
  nodeId : NodeId
  secretDigest : List UInt8
  createdAt : DateTime
  rotatedAt : Option DateTime
  disabled : Bool
  deriving DecidableEq

end RecordStore.Cluster

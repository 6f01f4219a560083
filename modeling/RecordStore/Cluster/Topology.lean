import RecordStore.Cluster.Device

/-!
# Cluster.Topology — configuration, members and the view decisions are made on

`config.rs` and `topology.rs`.  Node state is administrative intent or observed reachability, and a node
answers the same questions as a device: does it take new replicas, does it serve reads, does what it holds
count.  A `ClusterTopology` is the immutable view that placement and scheduling read.
-/

namespace RecordStore.Cluster

open RecordStore.Core

/-! ## Configuration -/

/-- Capacity pressure thresholds in whole percent. -/
structure CapacityWatermarks where
  lowPercent : UInt32
  highPercent : UInt32
  criticalPercent : UInt32
  deriving DecidableEq

inductive CapacityLevel where
  | normal
  | constrained
  | urgent
  | critical
  deriving DecidableEq

/-- Whether a device at this level may receive new replicas. -/
def CapacityLevel.acceptsNewReplicas : CapacityLevel → Bool
  | normal | constrained => true
  | _ => false

/-- Classifies a utilization percentage. -/
def CapacityWatermarks.level (w : CapacityWatermarks) (percent : Nat) : CapacityLevel :=
  if w.criticalPercent.toNat ≤ percent then .critical
  else if w.highPercent.toNat ≤ percent then .urgent
  else if w.lowPercent.toNat ≤ percent then .constrained
  else .normal

/-- When a replicated write may be acknowledged to the client. -/
inductive WriteAcknowledgement where
  | quorum
  | all
  | count (replicas : UInt8)
  deriving DecidableEq

/-- The number of durable replicas required for a factor. -/
def WriteAcknowledgement.required : WriteAcknowledgement → UInt8 → UInt8
  | quorum, factor => factor / 2 + 1
  | all, factor => factor
  | count n, factor => if n > factor then factor else if n = 0 then 1 else n

/-- The topology scope replicas are spread across. -/
inductive FailureDomainScope where
  | device
  | node
  | host
  | rack
  | datacenter
  | zone
  | region
  deriving DecidableEq

namespace FailureDomainScope

/-- The failure-domain label this scope groups by. -/
def label : FailureDomainScope → Option String
  | device | node => none
  | host => some "host"
  | rack => some "rack"
  | datacenter => some "datacenter"
  | zone => some "zone"
  | region => some "region"

def toText : FailureDomainScope → String
  | device => "device"
  | node => "node"
  | host => "host"
  | rack => "rack"
  | datacenter => "datacenter"
  | zone => "zone"
  | region => "region"

end FailureDomainScope

/-- Bandwidth and concurrency limits for background replica movement. -/
structure MovementPolicy where
  maximumConcurrentTasks : UInt32
  maximumStreamsPerNode : UInt32
  maximumBytesPerSecond : UInt64
  intervalSeconds : UInt64
  batchSize : UInt32
  deriving DecidableEq

structure RepairPolicy where
  movement : MovementPolicy
  maximumAttempts : UInt32
  leaseSeconds : UInt64
  deriving DecidableEq

structure RebalancePolicy where
  automatic : Bool
  movement : MovementPolicy
  tolerancePercent : UInt32
  deriving DecidableEq

structure FailureDetectionPolicy where
  heartbeatIntervalSeconds : UInt64
  suspectTimeoutSeconds : UInt64
  offlineTimeoutSeconds : UInt64
  deriving DecidableEq

/-- The replicated cluster-wide configuration document. -/
structure ClusterConfig where
  replicationFactor : UInt8
  writeAcknowledgement : WriteAcknowledgement
  failureDomainScope : FailureDomainScope
  strictFailureDomains : Bool
  allowDegradedWrites : Bool
  watermarks : CapacityWatermarks
  capacitySafetyMarginBytes : UInt64
  failureDetection : FailureDetectionPolicy
  repair : RepairPolicy
  rebalance : RebalancePolicy
  metadataVoterTarget : UInt8
  maintenanceServesReads : Bool
  tombstoneRetentionHours : UInt32
  unknownUploadSizeReservationBytes : UInt64
  deriving DecidableEq

/-- `MovementPolicy::validate`: each check with the text that refuses it. -/
def MovementPolicy.checks (m : MovementPolicy) (name : String) : List (Bool × String) :=
  [(decide (1 ≤ m.maximumConcurrentTasks ∧ m.maximumConcurrentTasks ≤ 1024),
      name ++ ".maximum_concurrent_tasks must be between 1 and 1024"),
    (decide (1 ≤ m.maximumStreamsPerNode ∧ m.maximumStreamsPerNode ≤ 256),
      name ++ ".maximum_streams_per_node must be between 1 and 256"),
    (decide (1 ≤ m.intervalSeconds ∧ m.intervalSeconds ≤ 86400),
      name ++ ".interval_seconds must be between 1 and 86400"),
    (decide (1 ≤ m.batchSize ∧ m.batchSize ≤ 10000), name ++ ".batch_size must be between 1 and 10000")]

namespace ClusterConfig

/-- The default configuration. -/
def default : ClusterConfig where
  replicationFactor := 3
  writeAcknowledgement := .quorum
  failureDomainScope := .rack
  strictFailureDomains := false
  allowDegradedWrites := true
  watermarks := ⟨80, 90, 95⟩
  capacitySafetyMarginBytes := 1073741824
  failureDetection := ⟨5, 20, 120⟩
  repair := ⟨⟨8, 4, 67108864, 30, 256⟩, 8, 600⟩
  rebalance := ⟨false, ⟨4, 2, 33554432, 300, 128⟩, 10⟩
  metadataVoterTarget := 3
  maintenanceServesReads := true
  tombstoneRetentionHours := 168
  unknownUploadSizeReservationBytes := 67108864

/-- The durability required before acknowledging a write. -/
def requiredAcknowledgements (c : ClusterConfig) : UInt8 := c.writeAcknowledgement.required c.replicationFactor

/-- Every field and cross-field constraint, in the order they are checked. -/
def checks (c : ClusterConfig) : List (Bool × String) :=
  [(decide (1 ≤ c.replicationFactor ∧ c.replicationFactor ≤ 3), "replication_factor must be between 1 and 3"),
    (match c.writeAcknowledgement with
      | .count n => decide (1 ≤ n ∧ n ≤ c.replicationFactor)
      | _ => true,
      "write_acknowledgement count must be between 1 and replication_factor"),
    (decide (1 ≤ c.watermarks.lowPercent ∧ c.watermarks.lowPercent < c.watermarks.highPercent ∧
        c.watermarks.highPercent < c.watermarks.criticalPercent ∧ c.watermarks.criticalPercent ≤ 100),
      "capacity watermarks must satisfy 0 < low < high < critical <= 100"),
    (decide (1 ≤ c.failureDetection.heartbeatIntervalSeconds ∧ c.failureDetection.heartbeatIntervalSeconds ≤ 300),
      "failure_detection.heartbeat_interval_seconds must be between 1 and 300"),
    (decide (c.failureDetection.suspectTimeoutSeconds > c.failureDetection.heartbeatIntervalSeconds),
      "failure_detection.suspect_timeout_seconds must exceed the heartbeat interval"),
    (decide (c.failureDetection.offlineTimeoutSeconds > c.failureDetection.suspectTimeoutSeconds),
      "failure_detection.offline_timeout_seconds must exceed the suspect timeout"),
    (decide (c.failureDetection.offlineTimeoutSeconds ≤ 86400),
      "failure_detection.offline_timeout_seconds must not exceed 86400")] ++
  c.repair.movement.checks "repair" ++ c.rebalance.movement.checks "rebalance" ++
  [(decide (1 ≤ c.repair.maximumAttempts ∧ c.repair.maximumAttempts ≤ 1000),
      "repair.maximum_attempts must be between 1 and 1000"),
    (decide (10 ≤ c.repair.leaseSeconds ∧ c.repair.leaseSeconds ≤ 86400),
      "repair.lease_seconds must be between 10 and 86400"),
    (decide (1 ≤ c.rebalance.tolerancePercent ∧ c.rebalance.tolerancePercent ≤ 50),
      "rebalance.tolerance_percent must be between 1 and 50"),
    (decide (1 ≤ c.metadataVoterTarget ∧ c.metadataVoterTarget ≤ 7), "metadata_voter_target must be between 1 and 7"),
    (decide (c.metadataVoterTarget ≤ 1 ∨ c.metadataVoterTarget % 2 = 1),
      "metadata_voter_target must be odd so that a quorum is unambiguous"),
    (decide (1 ≤ c.tombstoneRetentionHours ∧ c.tombstoneRetentionHours ≤ 8760),
      "tombstone_retention_hours must be between 1 and 8760"),
    (decide (1 ≤ c.unknownUploadSizeReservationBytes ∧ c.unknownUploadSizeReservationBytes ≤ 1099511627776),
      "unknown_upload_size_reservation_bytes must be between 1 and 1 TiB")]

/-- The text of the first check that fails. -/
def invalid? (c : ClusterConfig) : Option String := (c.checks.find? fun check => !check.1).map Prod.snd

example : default.invalid? = none := by decide

end ClusterConfig

/-! ## Nodes -/

/-- Explicit node lifecycle state. -/
inductive NodeState where
  | joining
  | healthy
  | suspect
  | unreachable
  | draining
  | maintenance
  | offline
  | decommissioned
  deriving DecidableEq

namespace NodeState

def toText : NodeState → String
  | joining => "joining"
  | healthy => "healthy"
  | suspect => "suspect"
  | unreachable => "unreachable"
  | draining => "draining"
  | maintenance => "maintenance"
  | offline => "offline"
  | decommissioned => "decommissioned"

/-- Whether the node may receive newly placed replicas. -/
def acceptsNewReplicas : NodeState → Bool
  | healthy => true
  | _ => false

/-- Whether the node's replicas may be read. -/
def servesReads : NodeState → Bool
  | healthy | suspect | draining => true
  | _ => false

/-- Whether the node's replicas still count towards durability. -/
def contributesDurability : NodeState → Bool
  | healthy | suspect | unreachable | draining | maintenance => true
  | _ => false

/-- Whether the node has been permanently removed. -/
def isTerminal : NodeState → Bool
  | decommissioned => true
  | _ => false

/-- The transition table. -/
def canTransitionTo (state next : NodeState) : Bool :=
  if state = next then true
  else if state.isTerminal then false
  else
    match state, next with
    | joining, healthy | joining, suspect | joining, unreachable | joining, offline | joining, maintenance
    | joining, decommissioned => true
    | healthy, suspect | healthy, unreachable | healthy, offline | healthy, draining | healthy, maintenance
    | healthy, decommissioned => true
    | suspect, healthy | suspect, unreachable | suspect, offline | suspect, draining | suspect, maintenance
    | suspect, decommissioned => true
    | unreachable, healthy | unreachable, suspect | unreachable, offline | unreachable, draining
    | unreachable, maintenance | unreachable, decommissioned => true
    | offline, joining | offline, healthy | offline, suspect | offline, unreachable | offline, maintenance
    | offline, decommissioned => true
    | draining, healthy | draining, maintenance | draining, decommissioned | draining, suspect
    | draining, unreachable | draining, offline => true
    | maintenance, healthy | maintenance, draining | maintenance, decommissioned | maintenance, suspect
    | maintenance, unreachable | maintenance, offline => true
    | _, _ => false

end NodeState

/-- Failures while changing a node's state. -/
inductive TopologyError where
  | invalidStateTransition (current requested : NodeState)
  deriving DecidableEq

/-- `Display`. -/
def TopologyError.toText : TopologyError → String
  | invalidStateTransition current requested =>
    "node state transition from " ++ current.toText ++ " to " ++ requested.toText ++ " is not allowed"

/-- Filesystem capacity reported by a node. -/
structure NodeCapacity where
  totalBytes : UInt64
  availableBytes : UInt64
  replicaBytes : UInt64
  temporaryBytes : UInt64
  deriving DecidableEq

/-- Aggregates independently managed devices. -/
def NodeCapacity.fromDevices (devices : List DeviceRecord) : NodeCapacity :=
  devices.foldl (fun total d =>
    { total with
      totalBytes := saturatingAdd total.totalBytes d.capacity.rawBytes
      availableBytes := saturatingAdd total.availableBytes d.capacity.availableBytes
      replicaBytes := saturatingAdd total.replicaBytes d.capacity.allocatedBytes }) ⟨0, 0, 0, 0⟩

/-- Topology labels such as `region`, `zone`, `rack`, `host`. -/
abbrev FailureDomain := List (String × String)

/-- The grouping key for a scope.  Nodes missing the label share one domain. -/
def FailureDomain.domainKey (labels : FailureDomain) (scope : FailureDomainScope) (node : NodeId) : String :=
  match scope with
  | .device => "unknown:device"
  | .node => "node:" ++ node.uuid.toText
  | other =>
    match other.label.bind fun label => List.lookup label labels with
    | some value => other.toText ++ ":" ++ value
    | none => "unknown:" ++ other.toText

/-- What a node reports when it registers with the cluster. -/
structure NodeRegistration where
  nodeId : NodeId
  rpcAddress : String
  storageClass : StorageClass
  failureDomain : FailureDomain
  capacity : NodeCapacity
  devices : List DeviceRecord
  deriving DecidableEq

/-- The replicated record describing one cluster member. -/
structure NodeRecord where
  nodeId : NodeId
  raftId : UInt64
  rpcAddress : String
  storageClass : StorageClass
  failureDomain : FailureDomain
  state : NodeState
  metadataVoter : Bool
  capacity : NodeCapacity
  devices : List DeviceRecord
  joinedAt : DateTime
  lastHeartbeatAt : Option DateTime
  stateChangedAt : DateTime
  stateReason : Option String
  deriving DecidableEq

namespace NodeRecord

/-- A newly registered node. -/
def joining (r : NodeRegistration) (raftId : UInt64) (metadataVoter : Bool) (now : DateTime) : NodeRecord where
  nodeId := r.nodeId
  raftId := raftId
  rpcAddress := r.rpcAddress
  storageClass := r.storageClass
  failureDomain := r.failureDomain
  state := .joining
  metadataVoter := metadataVoter
  capacity := r.capacity
  devices := r.devices
  joinedAt := now
  lastHeartbeatAt := some now
  stateChangedAt := now
  stateReason := some "registered"

def domainKey (n : NodeRecord) (scope : FailureDomainScope) : String := n.failureDomain.domainKey scope n.nodeId

/-- One registered device. -/
def device (n : NodeRecord) (id : DeviceId) : Option DeviceRecord := n.devices.find? (·.id = id)

/-- Installs the deterministic compatibility device for a pre-device record. -/
def ensureLegacyDevice (n : NodeRecord) : NodeRecord :=
  if n.devices.isEmpty then
    { n with
      devices := [.legacyDirectory n.nodeId n.storageClass
        ⟨n.capacity.totalBytes, n.capacity.totalBytes, n.capacity.replicaBytes, 0, n.capacity.availableBytes⟩] }
  else n

/-- A validated lifecycle transition; the flag says whether the state changed. -/
def transition (n : NodeRecord) (next : NodeState) (reason : Option String) (now : DateTime) :
    Except TopologyError (NodeRecord × Bool) :=
  if n.state = next then .ok ({ n with stateReason := reason.orElse fun _ => n.stateReason }, false)
  else if n.state.canTransitionTo next then
    .ok ({ n with state := next, stateChangedAt := now, stateReason := reason }, true)
  else .error (.invalidStateTransition n.state next)

end NodeRecord

/-! ## The view -/

/-- An immutable view of the cluster used by placement and scheduling. -/
structure ClusterTopology where
  clusterId : ClusterId
  config : ClusterConfig
  epoch : UInt64
  nodes : List NodeRecord

namespace ClusterTopology

/-- `node_id` as it is compared when nodes are sorted. -/
def nodeOrder (a b : NodeRecord) : Prop := (compare a.nodeId.bytes b.nodeId.bytes).isLE

instance : DecidableRel nodeOrder := fun _ _ => inferInstanceAs (Decidable (_ = true))

/-- A topology view at a committed placement epoch, with deterministic node ordering. -/
def atEpoch (clusterId : ClusterId) (config : ClusterConfig) (nodes : List NodeRecord) (epoch : UInt64) :
    ClusterTopology where
  clusterId := clusterId
  config := config
  epoch := epoch
  nodes := (nodes.map NodeRecord.ensureLegacyDevice).insertionSort nodeOrder

variable (t : ClusterTopology)

def node (id : NodeId) : Option NodeRecord := t.nodes.find? (·.nodeId = id)

/-- One device and its owning node. -/
def device (id : DeviceId) : Option (NodeRecord × DeviceRecord) :=
  t.nodes.findSome? fun n => (n.device id).map fun d => (n, d)

/-- Whether the node's replicas may currently be read. -/
def servesReads (id : NodeId) : Bool :=
  (t.node id).any fun n => n.state.servesReads || (n.state = .maintenance && t.config.maintenanceServesReads)

/-- Whether the node's replicas still count towards durability. -/
def contributesDurability (id : NodeId) : Bool := (t.node id).any fun n => n.state.contributesDurability

/-- Whether an exact node/device target counts toward durability. -/
def deviceContributesDurability (x : Slot) : Bool :=
  (t.node x.1).any fun n => n.state.contributesDurability &&
    (n.device x.2).any fun d => d.state.contributesDurability && d.health.contributesDurability

variable {t}

/-- A device that counts is on a node that counts. -/
theorem contributes_of_device {x : Slot} (h : t.deviceContributesDurability x) : t.contributesDurability x.1 := by
  unfold deviceContributesDurability at h
  unfold contributesDurability
  rw [Option.any_eq_true] at h ⊢
  obtain ⟨n, hn, hd⟩ := h
  rw [Bool.and_eq_true] at hd
  exact ⟨n, hn, hd.1⟩

end ClusterTopology

end RecordStore.Cluster

import RecordStore.Cluster.Catalog
import RecordStore.Consensus.Command

/-!
# Cluster.Commands — every mutation of the replicated cluster state

`catalog/commands.rs`.  Each command reads the record it names and refuses when it is not there; what it
writes is a composition of the helpers of the catalog.
-/

namespace RecordStore.Cluster

open RecordStore.Lib RecordStore.Core RecordStore.Consensus Tx

/-! ## Commands -/

/-- One deterministic mutation of replicated cluster state. -/
inductive ClusterCommand where
  | initializeCluster (identity : ClusterIdentity) (config : ClusterConfig)
  | recordRecovery (recoveryId : Uuid) (reason : String) (time : DateTime)
  | updateConfig (config : ClusterConfig) (time : DateTime)
  | registerNode (registration : NodeRegistration) (time : DateTime)
  | heartbeat (nodeId : NodeId) (capacity : NodeCapacity) (time : DateTime)
  | updateNodeDescriptor (nodeId : NodeId) (rpcAddress : String) (storageClass : StorageClass)
      (failureDomain : FailureDomain) (time : DateTime)
  | setNodeState (nodeId : NodeId) (state : NodeState) (reason : Option String) (time : DateTime)
  | registerDevice (nodeId : NodeId) (device : DeviceRecord) (time : DateTime)
  | putStoragePolicy (policy : StoragePolicy) (time : DateTime)
  | deleteStoragePolicy (storageClass : StorageClass) (time : DateTime)
  | setDeviceState (nodeId : NodeId) (deviceId : DeviceId) (state : DeviceState) (time : DateTime)
  | setNodeMetadataVoter (nodeId : NodeId) (voter : Bool) (time : DateTime)
  | forgetNode (nodeId : NodeId)
  | putPlacement (placement : PayloadPlacement)
  | upsertReplica (objectId : ObjectId) (replica : Replica) (time : DateTime)
  | setReplicaState (objectId : ObjectId) (nodeId : NodeId) (state : ReplicaState) (checksum : Option Checksum)
      (verified : Bool) (time : DateTime)
  | setReplicaStateOnDevice (objectId : ObjectId) (nodeId : NodeId) (deviceId : DeviceId) (state : ReplicaState)
      (checksum : Option Checksum) (verified : Bool) (time : DateTime)
  | removeReplica (objectId : ObjectId) (nodeId : NodeId) (time : DateTime)
  | removeReplicaFromDevice (objectId : ObjectId) (nodeId : NodeId) (deviceId : DeviceId) (time : DateTime)
  | setDesiredReplicas (objectId : ObjectId) (desired : UInt8) (time : DateTime)
  | deletePlacement (objectId : ObjectId) (time : DateTime)
  | acknowledgeTombstone (objectId : ObjectId) (nodeId : NodeId) (time : DateTime)
  | purgeTombstone (objectId : ObjectId)
  | enqueueTask (task : ReplicaTask)
  | claimTask (taskId : ReplicaTaskId) (nodeId : NodeId) (leaseSeconds : UInt64) (time : DateTime)
  | completeTask (taskId : ReplicaTaskId) (nodeId : Option NodeId) (fence : UInt64) (time : DateTime)
  | failTask (taskId : ReplicaTaskId) (nodeId : Option NodeId) (fence : UInt64) (reason : String)
      (maximumAttempts : UInt32) (time : DateTime)
  | requeueTask (taskId : ReplicaTaskId) (reason : Option String) (time : DateTime)
  | cancelTask (taskId : ReplicaTaskId) (reason : String) (time : DateTime)
  | purgeTask (taskId : ReplicaTaskId)
  | startOperation (operation : ClusterOperation)
  | updateOperation (operationId : ClusterOperationId) (state : ClusterOperationState) (progress : OperationProgress)
      (message : Option String) (time : DateTime)
  | issueJoinToken (token : JoinToken)
  | consumeJoinToken (tokenId : JoinTokenId) (time : DateTime)
  | revokeJoinToken (tokenId : JoinTokenId) (time : DateTime)
  | purgeJoinToken (tokenId : JoinTokenId)
  | putNodeCredential (credential : NodeCredential)
  | setNodeCredentialDisabled (nodeId : NodeId) (disabled : Bool) (time : DateTime)

inductive ClusterOutcome where
  | none
  | node (record : NodeRecord)
  | device (device : DeviceRecord)
  | storagePolicy (policy : StoragePolicy)
  | registration (record : NodeRecord) (raftId : UInt64) (created : Bool)
  | placement (placement : PayloadPlacement)
  | task (task : ReplicaTask)
  | operation (operation : ClusterOperation)
  | config (config : ClusterConfig)
  | identity (identity : ClusterIdentity)
  | changed (changed : Bool)
  deriving DecidableEq

/-- How a command can fail. -/
inductive ClusterFailure where
  | notInitialized
  | alreadyInitialized (clusterId : ClusterId)
  | nodeNotFound (nodeId : NodeId)
  | deviceNotFound (nodeId : NodeId) (deviceId : DeviceId)
  | placementNotFound (objectId : ObjectId)
  | replicaNotFound (objectId : ObjectId) (nodeId : NodeId)
  | tombstoneNotFound (objectId : ObjectId)
  | taskNotFound (taskId : ReplicaTaskId)
  | operationNotFound (operationId : ClusterOperationId)
  | joinTokenNotFound (tokenId : JoinTokenId)
  | credentialNotFound (nodeId : NodeId)
  | topology (error : TopologyError)
  | device (error : DeviceError)
  | configuration (reason : String)
  | database (operation reason : String)
  -- a lease whose end is no representable time
  | panicked
  deriving DecidableEq

/-- `Display`. -/
def ClusterFailure.toText : ClusterFailure → String
  | notInitialized => "cluster has not been initialized; run 'record-store cluster init' first"
  | alreadyInitialized clusterId => "cluster " ++ clusterId.uuid.toText ++ " is already initialized"
  | nodeNotFound nodeId => "node " ++ nodeId.uuid.toText ++ " is not a member of this cluster"
  | deviceNotFound nodeId deviceId =>
    "device " ++ deviceId.uuid.toText ++ " is not registered on node " ++ nodeId.uuid.toText
  | placementNotFound objectId => "placement metadata for payload " ++ objectId.uuid.toText ++ " was not found"
  | replicaNotFound objectId nodeId =>
    "payload " ++ objectId.uuid.toText ++ " has no replica on node " ++ nodeId.uuid.toText
  | tombstoneNotFound objectId => "tombstone for payload " ++ objectId.uuid.toText ++ " was not found"
  | taskNotFound taskId => "replica task " ++ taskId.uuid.toText ++ " was not found"
  | operationNotFound operationId => "cluster operation " ++ operationId.uuid.toText ++ " was not found"
  | joinTokenNotFound tokenId => "join token " ++ tokenId.uuid.toText ++ " was not found"
  | credentialNotFound nodeId => "node credential for node " ++ nodeId.uuid.toText ++ " was not found"
  | topology error => error.toText
  | device error => error.toText
  | configuration reason => "invalid cluster configuration: " ++ reason
  | database operation reason => "cluster catalog operation '" ++ operation ++ "' failed: " ++ reason
  | panicked => "cluster catalog task failed"

abbrev ClusterTx := Tx ClusterCatalog ClusterFailure

def requirePlacement (id : ObjectId) : ClusterTx PayloadPlacement := do
  okOr (← Tx.read fun s => s.placement id) (.placementNotFound id)

def requireTask (id : ReplicaTaskId) : ClusterTx ReplicaTask := do
  okOr (← Tx.read fun s => s.task id) (.taskNotFound id)

def requireNode (id : NodeId) : ClusterTx NodeRecord := do
  okOr (← Tx.read fun s => s.node id) (.nodeNotFound id)

def requireConfig : ClusterTx ClusterConfig := do
  okOr (← Tx.read fun s => s.config) .notInitialized

/-- Recomputes the summary counters, since one node can move many payloads at once. -/
def recountDurability : ClusterTx Unit := do
  match ← Tx.read fun s => s.identity with
  | none => return ()
  | some identity =>
    let config ← requireConfig
    let topology ← Tx.read fun s => ClusterTopology.atEpoch identity.clusterId config s.nodes.rows 0
    let durabilities ← Tx.read fun s => s.placements.rows.map fun p => p.durability topology
    modify fun s => (s.setCounter "under_replicated"
      (ClusterCatalog.countRows (durabilities.filter Durability.underReplicated))).setCounter "unavailable_payloads"
      (ClusterCatalog.countRows (durabilities.filter Durability.isUnavailable))

/-! ### The cluster and its nodes -/

def initializeCluster (identity : ClusterIdentity) (config : ClusterConfig) : ClusterTx ClusterOutcome := do
  refuse config.invalid? .configuration
  match ← Tx.read fun s => s.identity with
  | some existing =>
    if existing.clusterId = identity.clusterId then return .identity existing
    else throw (.alreadyInitialized existing.clusterId)
  | none =>
    modify fun s => { s with identity := some identity, config := some config }
    modify fun s => (s.setCounter "next_member_id" 1).setCounter "cluster_map_epoch" 1
    return .identity identity

/-- A restart keeps the member identifier and refreshes only what the node can re-declare. -/
def NodeRecord.refresh (n : NodeRecord) (r : NodeRegistration) (time : DateTime) : NodeRecord :=
  { n with
    rpcAddress := r.rpcAddress
    storageClass := r.storageClass
    failureDomain := r.failureDomain
    capacity := r.capacity
    devices := if r.devices.isEmpty then n.devices else r.devices
    lastHeartbeatAt := some time }

def registerNode (r : NodeRegistration) (time : DateTime) : ClusterTx ClusterOutcome := do
  match ← Tx.read fun s => s.node r.nodeId with
  | some existing =>
    let refreshed := existing.refresh r time
    -- a returning node must reconcile its replicas before it is trusted
    let returning := refreshed.state = .offline ∨ refreshed.state = .unreachable ∨ refreshed.state = .suspect
    let record ← if returning then
        Prod.fst <$> Tx.ofExcept (refreshed.transition .joining (some "node restarted") time) .topology
      else pure refreshed
    modify fun s => (s.putNode r.nodeId record).advanceClusterMapEpoch
    return .registration record record.raftId false
  | none =>
    let raftId ← Tx.read fun s => max (s.readCounter "next_member_id") 1
    modify fun s => s.setCounter "next_member_id" (saturatingAdd raftId 1)
    let voters ← Tx.read fun s => s.countVoters
    let config ← requireConfig
    let record := NodeRecord.joining r raftId (voters < config.metadataVoterTarget.toUInt32) time
    modify fun s => (s.putNode r.nodeId record).advanceClusterMapEpoch
    modify fun s => { s with nodeByMember := s.nodeByMember.insert (beBytes 8 raftId.toNat) r.nodeId.bytes }
    return .registration record raftId true

/-- Reads the node record, lets `update` change it, and writes it back. -/
def updateNode (id : NodeId) (update : NodeRecord → ClusterTx NodeRecord) : ClusterTx NodeRecord := do
  let node ← requireNode id
  let updated ← update node
  modify fun s => s.putNode id updated
  return updated

def setNodeState (id : NodeId) (state : NodeState) (reason : Option String) (time : DateTime) :
    ClusterTx ClusterOutcome := do
  let node ← requireNode id
  let (moved, changed) ← Tx.ofExcept (node.transition state reason time) .topology
  let moved := if state = .decommissioned then { moved with metadataVoter := false } else moved
  modify fun s => s.putNode id moved
  when changed do
    modify fun s => s.advanceClusterMapEpoch
    recountDurability
  return .node moved

/-- `id` as it is compared when devices are sorted. -/
def deviceOrder (a b : DeviceRecord) : Prop := (compare a.id.bytes b.id.bytes).isLE

instance : DecidableRel deviceOrder := fun _ _ => inferInstanceAs (Decidable (_ = true))

/-- The device list with `d` in the place of the first device with its identifier, or added. -/
def upsertDevice (devices : List DeviceRecord) (d : DeviceRecord) : List DeviceRecord :=
  (if devices.any (·.id = d.id) then devices.replaceF fun x => if x.id = d.id then some d else none
    else devices ++ [d]).insertionSort deviceOrder

def registerDevice (id : NodeId) (device : DeviceRecord) : ClusterTx ClusterOutcome := do
  let node ← requireNode id
  ensure (device.nodeId = id) (.device (.wrongNode device.id id device.nodeId))
  Tx.ofExcept device.capacity.validate .device
  -- the device that covers the data directory must not vanish when a second one is registered
  let node := node.ensureLegacyDevice
  -- refreshing discovery information must not reset durable administrative intent
  let device := { device with state := ((node.device device.id).map (·.state)).getD device.state }
  let devices := upsertDevice node.devices device
  modify fun s =>
    (s.putNode id { node with devices := devices, capacity := .fromDevices devices }).advanceClusterMapEpoch
  return .device device

def setDeviceState (id : NodeId) (deviceId : DeviceId) (state : DeviceState) : ClusterTx ClusterOutcome := do
  let node ← requireNode id
  let remaining ← Tx.read fun s => s.deviceReplicaCount id deviceId
  ensure (state = .safeToRemove → remaining = 0)
    (.database "mark device safe to remove" "device still owns replica records; evacuation is incomplete")
  let device ← okOr (node.device deviceId) (.deviceNotFound id deviceId)
  let (moved, changed) ← Tx.ofExcept (device.transition state) .device
  modify fun s => s.putNode id
    { node with devices := node.devices.replaceF fun x => if x.id = deviceId then some moved else none }
  when changed do
    modify fun s => s.advanceClusterMapEpoch
    recountDurability
  return .device moved

def forgetNode (id : NodeId) : ClusterTx ClusterOutcome := do
  match ← Tx.read fun s => s.node id with
  | none => return .changed false
  | some node =>
    ensure (node.state = .decommissioned) (.topology (.invalidStateTransition node.state .decommissioned))
    let remaining ← Tx.read fun s => s.nodeReplicaCount id
    ensure (remaining = 0) (.database "forget node" "node still owns replica records")
    modify fun s =>
      { s with
        nodes := s.nodes.erase id.bytes
        nodeByMember := s.nodeByMember.erase (beBytes 8 node.raftId.toNat)
        nodeCredentials := s.nodeCredentials.erase id.bytes }
    modify fun s => s.advanceClusterMapEpoch
    return .changed true

/-! ### Placements and tombstones -/

/-- Reads the placement, lets `update` change it, and writes it back. -/
def updatePlacement (id : ObjectId) (update : PayloadPlacement → ClusterTx PayloadPlacement) :
    ClusterTx ClusterOutcome := do
  let placement ← requirePlacement id
  let updated ← update placement
  modify fun s => s.writePlacement updated (physicalBytes placement)
  return .placement updated

/-- The change both commands that set a replica's state make to it. -/
def Replica.setState (r : Replica) (state : ReplicaState) (checksum : Option Checksum) (verified : Bool)
    (time : DateTime) : Replica :=
  let promoted := r.state ≠ .healthy ∧ state = .healthy
  { r with
    state := state
    checksum := checksum.orElse fun _ => r.checksum
    verifiedAt := if verified then some time else r.verifiedAt
    generation := if promoted then saturatingAdd r.generation 1 else r.generation }

/-- The state of the first replica with a property. -/
def setStateWhere (id : ObjectId) (node : NodeId) (found : Replica → Bool) (state : ReplicaState)
    (checksum : Option Checksum) (verified : Bool) (time : DateTime) : ClusterTx ClusterOutcome :=
  updatePlacement id fun placement => do
    let replica ← okOr (placement.replicas.find? found) (.replicaNotFound id node)
    -- a replica keeps its device, so this replaces the one that was found
    return placement.upsertReplica (replica.setState state checksum verified time) time

def putPlacement (p : PayloadPlacement) : ClusterTx ClusterOutcome := do
  let existing ← Tx.read fun s => s.placement p.objectId
  match existing with
  | none => modify fun s => (s.adjustCounter "placements" 1).adjustCounter "logical_bytes" p.size.toNat
  | some previous => modify fun s => s.adjustCounter "logical_bytes" (p.size.toNat - previous.size.toNat)
  modify fun s => s.writePlacement p ((existing.map physicalBytes).getD 0)
  return .placement p

def deletePlacement (id : ObjectId) (time : DateTime) : ClusterTx ClusterOutcome := do
  match ← Tx.read fun s => s.placement id with
  -- deleting an unknown payload is a no-op
  | none => return .changed false
  | some placement =>
    let existing ← Tx.read fun s => s.tombstones[id.bytes]?
    modify fun s => { s with tombstones := s.tombstones.insert id.bytes (.new id placement.nodes time) }
    when (existing = none) (modify fun s => s.adjustCounter "tombstones" 1)
    modify fun s =>
      ((s.adjustCounter "placements" (-1)).adjustCounter "logical_bytes" (-placement.size.toNat)).adjustCounter
      "physical_bytes" (-(physicalBytes placement).toNat)
    modify fun s => { s with placements := s.placements.erase id.bytes }
    -- the index keeps what a node returning from an outage still has to delete
    modify fun s => s.indexReplicas id placement.replicas fun _ => .deleting
    return .changed true

def enqueueTask (t : ReplicaTask) : ClusterTx ClusterOutcome := do
  let existing ← Tx.read fun s => (s.taskByObject[taskObjectKey t.objectId t.kind]?).bind fun id => s.tasks[id]?
  match existing.filter (·.state.active) with
  -- repeating an identical request must not create duplicate work
  | some existing => return .task existing
  | none =>
    modify fun s => ((s.putTask t.id t).putTaskObjectEntry t).insertTaskQueueEntry t
    modify fun s => s.adjustCounter "active_tasks" 1
    return .task t

/-- A task that leaves the set of active ones. -/
def retireTask (before after : ReplicaTask) (s : ClusterCatalog) : ClusterCatalog :=
  let s := s.removeTaskObjectEntry after
  if before.state.active then s.adjustCounter "active_tasks" (-1) else s

/-! ### The command -/

/-- Applies one command inside a caller-provided transaction. -/
def applyCommandTx : ClusterCommand → ClusterTx ClusterOutcome
  | .initializeCluster identity config => initializeCluster identity config
  | .recordRecovery recoveryId _ time => do
    let identity ← okOr (← Tx.read fun s => s.identity) .notInitialized
    let generation := identity.recoveryGeneration
    let rebuilt := { identity with
      recoveryGeneration := if generation = 0xffffffff then generation else generation + 1
      recoveryId := some recoveryId
      recoveredAt := some time }
    modify fun s => { s with identity := some rebuilt }
    modify fun s => s.advanceClusterMapEpoch
    return .identity rebuilt
  | .updateConfig config _ => do
    refuse config.invalid? .configuration
    modify fun s => { s with config := some config }
    modify fun s => s.advanceClusterMapEpoch
    return .config config
  | .registerNode registration time => registerNode registration time
  | .heartbeat id capacity time => do
    let node ← updateNode id fun n => return { n with capacity := capacity, lastHeartbeatAt := some time }
    return .node node
  | .updateNodeDescriptor id rpcAddress storageClass failureDomain time => do
    let node ← updateNode id fun n =>
      return { n with
        rpcAddress := rpcAddress, storageClass := storageClass, failureDomain := failureDomain
        lastHeartbeatAt := some time }
    modify fun s => s.advanceClusterMapEpoch
    return .node node
  | .setNodeState id state reason time => setNodeState id state reason time
  | .registerDevice id device _ => registerDevice id device
  | .putStoragePolicy policy _ => do
    refuse policy.invalid? (.database "validate storage policy")
    modify fun s => { s with storagePolicies := s.storagePolicies.insert (asBytes policy.storageClass.value) policy }
    modify fun s => s.advanceClusterMapEpoch
    return .storagePolicy policy
  | .deleteStoragePolicy storageClass _ => do
    ensure (storageClass.value ≠ "standard")
      (.database "delete storage policy" "the default storage policy cannot be removed")
    modify fun s => { s with storagePolicies := s.storagePolicies.erase (asBytes storageClass.value) }
    modify fun s => s.advanceClusterMapEpoch
    return .none
  | .setDeviceState id device state _ => setDeviceState id device state
  | .setNodeMetadataVoter id voter _ => do
    let node ← updateNode id fun n => return { n with metadataVoter := voter }
    return .node node
  | .forgetNode id => forgetNode id
  | .putPlacement placement => putPlacement placement
  | .upsertReplica id replica time => updatePlacement id fun p => return p.upsertReplica replica time
  | .setReplicaState id node state checksum verified time =>
    setStateWhere id node (fun r => r.nodeId = node) state checksum verified time
  | .setReplicaStateOnDevice id node device state checksum verified time =>
    setStateWhere id node (fun r => r.nodeId = node ∧ r.deviceId = device) state checksum verified time
  | .removeReplica id node time => updatePlacement id fun p => do
    let (p', removed) := p.removeReplica node time
    when removed (modify fun s => s.removeNodeReplica node id)
    return p'
  | .removeReplicaFromDevice id node device time => updatePlacement id fun p => do
    let (p', removed) := p.removeReplicaOn node device time
    when removed (modify fun s => s.removeDeviceReplica node device id)
    return p'
  | .setDesiredReplicas id desired time => updatePlacement id fun p =>
    return { p with desiredReplicas := desired, updatedAt := time }
  | .deletePlacement id time => deletePlacement id time
  | .acknowledgeTombstone id node time => do
    let tombstone ← okOr (← Tx.read fun s => s.tombstones[id.bytes]?) (.tombstoneNotFound id)
    let tombstone := tombstone.acknowledge node time
    modify fun s => { s.removeNodeReplica node id with tombstones := s.tombstones.insert id.bytes tombstone }
    return .changed tombstone.completedAt.isSome
  | .purgeTombstone id => do
    let removed ← Tx.read fun s => (s.tombstones[id.bytes]?).isSome
    modify fun s => { s with tombstones := s.tombstones.erase id.bytes }
    when removed (modify fun s => s.adjustCounter "tombstones" (-1))
    return .changed removed
  | .enqueueTask task => enqueueTask task
  | .claimTask id node leaseSeconds time => do
    let task ← requireTask id
    if task.state = .queued then
      modify fun s => s.removeTaskQueueEntry task
      let leaseExpiresAt ← okOr (addSeconds time (leaseDelta leaseSeconds)) .panicked
      let claimed := task.claim node leaseExpiresAt time
      modify fun s => (s.insertTaskQueueEntry claimed).putTask id claimed
      return .task claimed
    else return .changed false
  | .completeTask id node fence time => do
    let task ← requireTask id
    -- a report from a worker that no longer owns the claim is ignored
    if node.any fun node => !task.holdsClaim node fence then return .changed false
    else
      let completed := task.complete time
      modify fun s => retireTask task completed ((s.removeTaskQueueEntry task).putTask id completed)
      return .task completed
  | .failTask id node fence reason maximumAttempts time => do
    let task ← requireTask id
    if node.any fun node => !task.holdsClaim node fence then return .changed false
    else
      let failed := task.fail reason maximumAttempts time
      modify fun s => s.removeTaskQueueEntry task
      if failed.state.active then modify fun s => s.insertTaskQueueEntry failed
      else modify fun s => (retireTask task failed s).adjustCounter "parked_tasks" 1
      modify fun s => s.putTask id failed
      return .task failed
  | .requeueTask id reason time => do
    let task ← requireTask id
    let requeued := task.requeue reason time
    modify fun s => ((s.removeTaskQueueEntry task).insertTaskQueueEntry requeued).putTask id requeued
    when (¬ task.state.active)
      (modify fun s => (s.adjustCounter "active_tasks" 1).adjustCounter "parked_tasks" (-1))
    return .task requeued
  | .cancelTask id reason time => do
    let task ← requireTask id
    let cancelled := task.cancel reason time
    modify fun s => retireTask task cancelled ((s.removeTaskQueueEntry task).putTask id cancelled)
    return .task cancelled
  | .purgeTask id => do
    match ← Tx.read fun s => s.task id with
    | none => return .changed false
    | some task =>
      if task.state.active then return .changed false
      else
        when (task.state matches .parked ..) (modify fun s => s.adjustCounter "parked_tasks" (-1))
        modify fun s => { s with tasks := s.tasks.erase id.bytes }
        return .changed true
  | .startOperation operation => do
    modify fun s => { s with operations := s.operations.insert operation.id.bytes operation }
    return .operation operation
  | .updateOperation id state progress message time => do
    let operation ← okOr (← Tx.read fun s => s.operations[id.bytes]?) (.operationNotFound id)
    let updated := { operation with
      state := state
      progress := progress
      updatedAt := time
      message := message.orElse fun _ => operation.message
      completedAt := if ¬ state.active ∧ operation.completedAt = none then some time else operation.completedAt }
    modify fun s => { s with operations := s.operations.insert id.bytes updated }
    return .operation updated
  | .issueJoinToken token => do
    modify fun s => { s with joinTokens := s.joinTokens.insert token.id.bytes token }
    return .none
  | .consumeJoinToken id time => do
    let token ← okOr (← Tx.read fun s => s.joinTokens[id.bytes]?) (.joinTokenNotFound id)
    -- single use is decided here, where every member reaches the same conclusion
    ensure (¬ token.spent time) (.joinTokenNotFound id)
    modify fun s => { s with joinTokens := s.joinTokens.insert id.bytes token.consume }
    return .changed true
  | .revokeJoinToken id _ => do
    let token ← okOr (← Tx.read fun s => s.joinTokens[id.bytes]?) (.joinTokenNotFound id)
    modify fun s => { s with joinTokens := s.joinTokens.insert id.bytes { token with revoked := true } }
    return .changed true
  | .purgeJoinToken id => do
    let removed ← Tx.read fun s => (s.joinTokens[id.bytes]?).isSome
    modify fun s => { s with joinTokens := s.joinTokens.erase id.bytes }
    return .changed removed
  | .putNodeCredential credential => do
    modify fun s => { s with nodeCredentials := s.nodeCredentials.insert credential.nodeId.bytes credential }
    return .none
  | .setNodeCredentialDisabled id disabled time => do
    let credential ← okOr (← Tx.read fun s => s.nodeCredentials[id.bytes]?) (.credentialNotFound id)
    let updated := { credential with disabled := disabled, rotatedAt := some time }
    modify fun s => { s with nodeCredentials := s.nodeCredentials.insert id.bytes updated }
    return .changed true

/-- `classify_cluster_error`. -/
def classifyClusterError (e : ClusterFailure) : CommandRejection where
  kind :=
    match e with
    | .notInitialized => .clusterNotInitialized
    | .alreadyInitialized _ => .clusterAlreadyInitialized
    | .nodeNotFound _ => .nodeNotFound
    | .placementNotFound _ => .placementNotFound
    | .replicaNotFound _ _ => .replicaNotFound
    | .tombstoneNotFound _ => .tombstoneNotFound
    | .taskNotFound _ => .taskNotFound
    | .operationNotFound _ => .operationNotFound
    | .joinTokenNotFound _ => .joinTokenNotFound
    | .credentialNotFound _ => .credentialNotFound
    | .topology _ => .invalidTransition
    | .configuration _ => .invalidConfiguration
    | _ => .internal
  message := e.toText

/-- `is_durable_cluster_failure`. -/
def isDurableClusterFailure : ClusterFailure → Bool
  | .database _ _ | .panicked => true
  | _ => false

/-- What the replicated state machine uses of this catalog. -/
def clusterLogic : ClusterLogic ClusterCatalog ClusterCommand ClusterOutcome ClusterFailure where
  apply := applyCommandTx
  isDurable := isDurableClusterFailure
  classify := classifyClusterError
  toText := ClusterFailure.toText

end RecordStore.Cluster

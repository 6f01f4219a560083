import RecordStore.Cluster.TaskSteps

/-!
# Cluster.Footprint — the tables a command leaves alone

Most commands are about one thing: a payload, a member, a task or an operation.  The tables about anything else are as
they were.
-/

namespace RecordStore.Cluster

open RecordStore.Lib RecordStore.Core Tx ClusterCatalog

variable {s s' : ClusterCatalog} {o : ClusterOutcome} {c : ClusterCommand}

namespace ClusterCommand

/-- The payload a command is about. -/
def payload : ClusterCommand → Option ObjectId
  | putPlacement p => some p.objectId
  | upsertReplica id _ _ | setReplicaState id _ _ _ _ _ | setReplicaStateOnDevice id _ _ _ _ _ _ | removeReplica id _ _
  | removeReplicaFromDevice id _ _ _ | setDesiredReplicas id _ _ | deletePlacement id _ | acknowledgeTombstone id _ _
  | purgeTombstone id => some id
  | _ => none

/-- The node whose record a command may write. -/
def member : ClusterCommand → Option NodeId
  | registerNode r _ => some r.nodeId
  | heartbeat id _ _ | updateNodeDescriptor id _ _ _ _ | setNodeState id _ _ _ | registerDevice id _ _
  | setDeviceState id _ _ _ | setNodeMetadataVoter id _ _ | forgetNode id => some id
  | _ => none

/-- The operation a command writes. -/
def operation : ClusterCommand → Option ClusterOperationId
  | startOperation op => some op.id
  | updateOperation id _ _ _ _ => some id
  | _ => none

/-- The join token a command is about. -/
def token : ClusterCommand → Option JoinTokenId
  | issueJoinToken token => some token.id
  | consumeJoinToken id _ | revokeJoinToken id _ | purgeJoinToken id => some id
  | _ => none

/-- The commands that may move the map on. -/
def remaps : ClusterCommand → Bool
  | initializeCluster .. | recordRecovery .. | updateConfig .. | registerNode .. | updateNodeDescriptor .. |
    setNodeState ..
  | registerDevice .. | putStoragePolicy .. | deleteStoragePolicy .. | setDeviceState .. | forgetNode .. => true
  | _ => false

/-- The commands that may change who the members are. -/
def enrolls : ClusterCommand → Bool
  | initializeCluster .. | registerNode .. | forgetNode .. => true
  | _ => false

/-- The commands that write the identity of the cluster. -/
def identifies : ClusterCommand → Bool
  | initializeCluster .. | recordRecovery .. => true
  | _ => false

end ClusterCommand

/-- The three tables about replicas. -/
def ClusterCatalog.replicas (s : ClusterCatalog) : Table Bytes PayloadPlacement × Table Bytes UInt8 ×
    Table Bytes Tombstone :=
  (s.placements, s.nodeReplicas, s.tombstones)

/-- The tables that a command is not about. -/
def ClusterCatalog.untouched (c : ClusterCommand) (s : ClusterCatalog) :
    Option (Table Bytes PayloadPlacement × Table Bytes UInt8 × Table Bytes Tombstone) ×
      Option (Table Bytes NodeRecord) × Option (Table Bytes ClusterOperation) :=
  (if c.payload = none then some s.replicas else none, if c.member = none then some s.nodes else none,
    if c.operation = none then some s.operations else none)

namespace ClusterCatalog

def epoch (s : ClusterCatalog) : UInt64 := s.readCounter "cluster_map_epoch"

def nextMember (s : ClusterCatalog) : UInt64 := s.readCounter "next_member_id"

/-- The tables about the cluster as a whole that a command is not about. -/
def settings (c : ClusterCommand) (s : ClusterCatalog) :
    Option (Table Bytes JoinToken) × Option (Option ClusterConfig × Table Bytes StoragePolicy) ×
      Option (Table Bytes Bytes) × Option (Option ClusterIdentity) :=
  (if c.token = none then some s.joinTokens else none, if c.remaps then none else some (s.config, s.storagePolicies),
    if c.enrolls then none else some s.nodeByMember, if c.identifies then none else some s.identity)

/-- The two numbers, where the command does not count. -/
def numbers (c : ClusterCommand) (s : ClusterCatalog) : Option UInt64 × Option UInt64 :=
  (if c.remaps then none else some s.epoch, if c.enrolls then none else some s.nextMember)

end ClusterCatalog

/-- A command keeps the tables and the numbers it is not about. -/
theorem keeps_untouched (c : ClusterCommand) :
    Keeps (fun s => ((untouched c s, settings c s), numbers c s)) (applyCommandTx c) := by
  cases c
  all_goals simp only [applyCommandTx, initializeCluster, registerNode, updateNode, setNodeState, registerDevice,
    setDeviceState, forgetNode, putPlacement, deletePlacement, updatePlacement, setStateWhere, enqueueTask, requireNode,
    requireConfig, requirePlacement, requireTask, recountDurability]
  -- each body is a sequence of reads, checks and writes
  all_goals (
    repeat' with_reducible first
      | exact keeps_pure _
      | exact keeps_read _
      | exact keeps_okOr _ _
      | exact keeps_ofExcept _ _
      | exact keeps_refuse _ _
      | exact keeps_ensure _
      | exact keeps_throw _
      | apply keeps_ite
      | apply keeps_when
      | apply keeps_map
      | refine keeps_bind ?_ fun _ => ?_
      | refine keeps_modify fun _ => ?_
      | split)
  -- a write leaves the tables alone by computation, the numbers by the names of the counters
  all_goals
    try simp only [insertTaskQueueEntry_eq, retireTask_eq]
    refine Prod.ext rfl ?_
    try split_ifs
    all_goals simp [numbers, ClusterCommand.remaps, ClusterCommand.enrolls, epoch, nextMember, readCounter, setCounter,
      adjustCounter, advanceClusterMapEpoch, putNode, putTask, removeTaskQueueEntry, removeTaskObjectEntry_eq,
      putTaskObjectEntry, removeNodeReplica, removeDeviceReplica, writePlacement, putPlacementRecord, indexReplicas,
      Table.lookup_insert]

section Leaves

variable (h : Returns (applyCommandTx c) s o s')

include h

theorem replicas_of_returns (hc : c.payload = none) : s'.replicas = s.replicas := by
  have hsame := congrArg (·.1.1.1) (keeps_untouched c h)
  simp only [untouched, if_pos hc] at hsame
  exact Option.some.inj hsame

theorem nodes_of_returns (hc : c.member = none) : s'.nodes = s.nodes := by
  have hsame := congrArg (·.1.1.2.1) (keeps_untouched c h)
  simp only [untouched, if_pos hc] at hsame
  exact Option.some.inj hsame

theorem map_of_returns (hc : c.remaps = false) :
    s'.config = s.config ∧ s'.storagePolicies = s.storagePolicies ∧ s'.epoch = s.epoch := by
  have hsame := congrArg (·.1.2.2.1) (keeps_untouched c h)
  have hepoch := congrArg (·.2.1) (keeps_untouched c h)
  simp only [settings, numbers, hc, Bool.false_eq_true, if_false, Option.some.injEq, Prod.mk.injEq] at hsame hepoch
  exact ⟨hsame.1, hsame.2, hepoch⟩

theorem members_of_returns (hc : c.enrolls = false) : s'.nodeByMember = s.nodeByMember ∧
    s'.nextMember = s.nextMember := by
  have hsame := congrArg (·.1.2.2.2.1) (keeps_untouched c h)
  have hnext := congrArg (·.2.2) (keeps_untouched c h)
  simp only [settings, numbers, hc, Bool.false_eq_true, if_false, Option.some.injEq] at hsame hnext
  exact ⟨hsame, hnext⟩

theorem identity_of_returns (hc : c.identifies = false) : s'.identity = s.identity := by
  have hsame := congrArg (·.1.2.2.2.2) (keeps_untouched c h)
  simp only [settings, hc, Bool.false_eq_true, if_false, Option.some.injEq] at hsame
  exact hsame

end Leaves

end RecordStore.Cluster

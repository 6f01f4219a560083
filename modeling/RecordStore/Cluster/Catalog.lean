import RecordStore.Lib.Tx
import RecordStore.Cluster.Durability
import RecordStore.Cluster.Records
import RecordStore.Cluster.Tasks

/-!
# Cluster.Catalog — the cluster's part of the replicated state

The tables of members, placements, tombstones and movement tasks, their keys, and the helpers that only
write (`catalog/schema.rs`, `keys.rs`, `codec.rs`).  A helper that cannot refuse is a function on the
catalog.
-/

namespace RecordStore.Cluster

open RecordStore.Lib RecordStore.Core Tx

/-! ## Tables -/

/-- A durable deletion record. -/
structure Tombstone where
  objectId : ObjectId
  createdAt : DateTime
  -- the nodes that have not yet confirmed removal, and those that have
  pendingNodes : List NodeId
  completedNodes : List NodeId
  completedAt : Option DateTime
  deriving DecidableEq

namespace Tombstone

def new (objectId : ObjectId) (nodes : List NodeId) (now : DateTime) : Tombstone :=
  ⟨objectId, now, nodes, [], if nodes.isEmpty then some now else none⟩

/-- Records that a node removed its copy. -/
def acknowledge (t : Tombstone) (node : NodeId) (now : DateTime) : Tombstone :=
  let pending := t.pendingNodes.filter (· ≠ node)
  { t with
    pendingNodes := pending
    completedNodes := if node ∈ t.completedNodes then t.completedNodes else node :: t.completedNodes
    completedAt := if pending.isEmpty ∧ t.completedAt = none then some now else t.completedAt }

end Tombstone

structure ClusterCatalog where
  placements : Table Bytes PayloadPlacement
  nodeReplicas : Table Bytes UInt8
  tombstones : Table Bytes Tombstone
  tasks : Table Bytes ReplicaTask
  taskQueue : Table Bytes Bytes
  taskByObject : Table Bytes Bytes
  counters : Table String UInt64
  -- two tables with the one key `singleton`
  identity : Option ClusterIdentity
  config : Option ClusterConfig
  nodes : Table Bytes NodeRecord
  nodeByMember : Table Bytes Bytes
  operations : Table Bytes ClusterOperation
  joinTokens : Table Bytes JoinToken
  nodeCredentials : Table Bytes NodeCredential
  storagePolicies : Table Bytes StoragePolicy

def ClusterCatalog.empty : ClusterCatalog := ⟨∅, ∅, ∅, ∅, ∅, ∅, ∅, none, none, ∅, ∅, ∅, ∅, ∅, ∅⟩

/-! ## Keys -/

def replicaStateCode : ReplicaState → UInt8
  | .pending => 0
  | .healthy => 1
  | .repairing => 2
  | .stale => 3
  | .missing => 4
  | .deleting => 5
  | .corrupt => 6

/-- `(timestamp_millis() as u64) ^ (1 << 63)` in big-endian bytes. -/
def orderedTimestamp (t : DateTime) : Bytes :=
  let millis : Int := t.seconds * 1000 + (t.nanoseconds / 1000000 : Nat)
  beBytes 8 ((millis + 2 ^ 63) % 2 ^ 64).toNat

def taskQueueKey (t : ReplicaTask) : Bytes := t.priority.rank :: orderedTimestamp t.createdAt ++ t.id.bytes

theorem taskQueueKey_inj {t u : ReplicaTask} (h : taskQueueKey t = taskQueueKey u) : t.id = u.id :=
  Id.bytes_inj.mp (List.append_inj_right' h (by rw [Id.length_bytes, Id.length_bytes]))

def taskObjectKey (objectId : ObjectId) (kind : ReplicaTaskKind) : Bytes := objectId.bytes ++ [kind.code]

def nodeReplicaKey (node : NodeId) (objectId : ObjectId) (device : DeviceId) : Bytes :=
  node.bytes ++ objectId.bytes ++ device.bytes

/-! ## Writes -/

/-- The bytes of the replicas that take space, `fold` with `saturating_add`. -/
def physicalBytes (p : PayloadPlacement) : UInt64 :=
  (p.replicas.filter fun r => r.state matches .healthy | .pending | .repairing | .stale | .corrupt).foldl
    (fun total r => saturatingAdd total r.size) 0

namespace ClusterCatalog

def readCounter (name : String) (s : ClusterCatalog) : UInt64 := (s.counters[name]?).getD 0

def setCounter (name : String) (value : UInt64) (s : ClusterCatalog) : ClusterCatalog :=
  { s with counters := s.counters.insert name value }

/-- The new value is kept between `0` and `u64::MAX`. -/
def adjustCounter (name : String) (delta : Int) (s : ClusterCatalog) : ClusterCatalog :=
  let next : Int := max (((s.counters[name]?).getD 0).toNat + delta) 0
  { s with counters := s.counters.insert name (UInt64.ofNat (min next.toNat (2 ^ 64 - 1))) }

/-- The index entry of each replica of a placement, with a state. -/
def indexReplicas (objectId : ObjectId) (replicas : List Replica) (state : Replica → ReplicaState)
    (s : ClusterCatalog) : ClusterCatalog :=
  { s with
    nodeReplicas := replicas.foldl
      (fun t r => t.insert (nodeReplicaKey r.nodeId objectId r.deviceId) (replicaStateCode (state r))) s.nodeReplicas }

def putPlacementRecord (p : PayloadPlacement) (s : ClusterCatalog) : ClusterCatalog :=
  { s with placements := s.placements.insert p.objectId.bytes p }

def writePlacement (p : PayloadPlacement) (physicalBefore : UInt64) (s : ClusterCatalog) : ClusterCatalog :=
  ((s.adjustCounter "physical_bytes" ((physicalBytes p).toNat - physicalBefore.toNat)).putPlacementRecord p)
    |>.indexReplicas p.objectId p.replicas (·.state)

/-- Every index entry of the payload on the node. -/
def removeNodeReplica (node : NodeId) (objectId : ObjectId) (s : ClusterCatalog) : ClusterCatalog :=
  let start := node.bytes ++ objectId.bytes
  { s with
    nodeReplicas :=
      (s.nodeReplicas.rowsIn start (prefixSuccessor start)).foldl (fun t r => t.erase r.1) s.nodeReplicas }

def removeDeviceReplica (node : NodeId) (device : DeviceId) (objectId : ObjectId) (s : ClusterCatalog) :
    ClusterCatalog :=
  { s with nodeReplicas := s.nodeReplicas.erase (nodeReplicaKey node objectId device) }

def insertTaskQueueEntry (t : ReplicaTask) (s : ClusterCatalog) : ClusterCatalog :=
  if t.state.active then { s with taskQueue := s.taskQueue.insert (taskQueueKey t) t.id.bytes } else s

def removeTaskQueueEntry (t : ReplicaTask) (s : ClusterCatalog) : ClusterCatalog :=
  { s with taskQueue := s.taskQueue.erase (taskQueueKey t) }

def putTaskObjectEntry (t : ReplicaTask) (s : ClusterCatalog) : ClusterCatalog :=
  { s with taskByObject := s.taskByObject.insert (taskObjectKey t.objectId t.kind) t.id.bytes }

def removeTaskObjectEntry (t : ReplicaTask) (s : ClusterCatalog) : ClusterCatalog :=
  let key := taskObjectKey t.objectId t.kind
  if s.taskByObject[key]? = some t.id.bytes then { s with taskByObject := s.taskByObject.erase key } else s

def putNode (id : NodeId) (n : NodeRecord) (s : ClusterCatalog) : ClusterCatalog :=
  { s with nodes := s.nodes.insert id.bytes n }

def putTask (id : ReplicaTaskId) (t : ReplicaTask) (s : ClusterCatalog) : ClusterCatalog :=
  { s with tasks := s.tasks.insert id.bytes t }

def placement (s : ClusterCatalog) (id : ObjectId) : Option PayloadPlacement := s.placements[id.bytes]?

def task (s : ClusterCatalog) (id : ReplicaTaskId) : Option ReplicaTask := s.tasks[id.bytes]?

def tombstone (s : ClusterCatalog) (id : ObjectId) : Option Tombstone := s.tombstones[id.bytes]?

def node (s : ClusterCatalog) (id : NodeId) : Option NodeRecord := s.nodes[id.bytes]?

/-- `count.saturating_add(1)` for each row. -/
def countRows {α : Type} (rows : List α) : UInt64 := rows.foldl (fun n _ => saturatingAdd n 1) 0

theorem countRows_toNat {α : Type} (rows : List α) : (countRows rows).toNat = min rows.length (2 ^ 64 - 1) := by
  suffices h : ∀ n : UInt64,
    (rows.foldl (fun n _ => saturatingAdd n 1) n).toNat = min (n.toNat + rows.length) (2 ^ 64 - 1) by
    rw [countRows, h 0]
    simp
  induction rows with
  | nil =>
    intro n
    have hn : n.toNat < 2 ^ 64 := n.toNat_lt
    rw [List.foldl_nil, List.length_nil]
    omega
  | cons a rows ih =>
    intro n
    rw [List.foldl_cons, ih, saturatingAdd_toNat, List.length_cons, UInt64.toNat_one]
    omega

/-- The index entries of a node. -/
def nodeRows (s : ClusterCatalog) (node : NodeId) : List (Bytes × UInt8) :=
  s.nodeReplicas.rowsIn node.bytes (prefixSuccessor node.bytes)

def nodeReplicaCount (s : ClusterCatalog) (node : NodeId) : UInt64 := countRows (s.nodeRows node)

def deviceReplicaCount (s : ClusterCatalog) (node : NodeId) (device : DeviceId) : UInt64 :=
  countRows ((s.nodeRows node).filter fun r => r.1.length = 48 ∧ (r.1.drop 32).take 16 = device.bytes)

/-- Every topology or policy change moves the map generation on. -/
def advanceClusterMapEpoch (s : ClusterCatalog) : ClusterCatalog :=
  s.setCounter "cluster_map_epoch" (saturatingAdd (max (s.readCounter "cluster_map_epoch") 1) 1)

def countVoters (s : ClusterCatalog) : UInt32 := count32 (fun n => n.metadataVoter && !n.state.isTerminal) s.nodes.rows

end ClusterCatalog

end RecordStore.Cluster

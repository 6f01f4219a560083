import RecordStore.Cluster.Catalog

/-!
# Cluster.Snapshot — the cluster tables as a list of entries

The export walks the cluster's tables in the order of `CLUSTER_TABLES` and copies every row as it is
stored; the import clears every table and writes the rows back.  An entry names its table, here by its
constructor.
-/

namespace RecordStore.Cluster

open RecordStore.Lib Tx

/-- One row of a table. -/
inductive CatalogEntry where
  | identity (value : ClusterIdentity)
  | config (value : ClusterConfig)
  | node (key : Bytes) (value : NodeRecord)
  | nodeByMember (key value : Bytes)
  | counter (key : String) (value : UInt64)
  | placement (key : Bytes) (value : PayloadPlacement)
  | nodeReplica (key : Bytes) (value : UInt8)
  | tombstone (key : Bytes) (value : Tombstone)
  | task (key : Bytes) (value : ReplicaTask)
  | taskQueue (key value : Bytes)
  | taskByObject (key value : Bytes)
  | operation (key : Bytes) (value : ClusterOperation)
  | joinToken (key : Bytes) (value : JoinToken)
  | nodeCredential (key : Bytes) (value : NodeCredential)
  | storagePolicy (key : Bytes) (value : StoragePolicy)

/-- Exports every cluster table for a consensus snapshot. -/
def exportTx (s : ClusterCatalog) : List CatalogEntry := List.flatten [
  s.identity.toList.map .identity,
  s.config.toList.map .config,
  s.nodes.toList.map fun r => .node r.1 r.2,
  s.nodeByMember.toList.map fun r => .nodeByMember r.1 r.2,
  s.counters.toList.map fun r => .counter r.1 r.2,
  s.placements.toList.map fun r => .placement r.1 r.2,
  s.nodeReplicas.toList.map fun r => .nodeReplica r.1 r.2,
  s.tombstones.toList.map fun r => .tombstone r.1 r.2,
  s.tasks.toList.map fun r => .task r.1 r.2,
  s.taskQueue.toList.map fun r => .taskQueue r.1 r.2,
  s.taskByObject.toList.map fun r => .taskByObject r.1 r.2,
  s.operations.toList.map fun r => .operation r.1 r.2,
  s.joinTokens.toList.map fun r => .joinToken r.1 r.2,
  s.nodeCredentials.toList.map fun r => .nodeCredential r.1 r.2,
  s.storagePolicies.toList.map fun r => .storagePolicy r.1 r.2]

def ClusterCatalog.putRaw (s : ClusterCatalog) : CatalogEntry → ClusterCatalog
  | .identity value => { s with identity := some value }
  | .config value => { s with config := some value }
  | .node key value => { s with nodes := s.nodes.insert key value }
  | .nodeByMember key value => { s with nodeByMember := s.nodeByMember.insert key value }
  | .counter key value => { s with counters := s.counters.insert key value }
  | .placement key value => { s with placements := s.placements.insert key value }
  | .nodeReplica key value => { s with nodeReplicas := s.nodeReplicas.insert key value }
  | .tombstone key value => { s with tombstones := s.tombstones.insert key value }
  | .task key value => { s with tasks := s.tasks.insert key value }
  | .taskQueue key value => { s with taskQueue := s.taskQueue.insert key value }
  | .taskByObject key value => { s with taskByObject := s.taskByObject.insert key value }
  | .operation key value => { s with operations := s.operations.insert key value }
  | .joinToken key value => { s with joinTokens := s.joinTokens.insert key value }
  | .nodeCredential key value => { s with nodeCredentials := s.nodeCredentials.insert key value }
  | .storagePolicy key value => { s with storagePolicies := s.storagePolicies.insert key value }

/-- Replaces every cluster table: whatever was there is cleared first. -/
def importTx (entries : List CatalogEntry) : ClusterCatalog := entries.foldl ClusterCatalog.putRaw .empty

section Restore

variable {s : ClusterCatalog}

def nodesField : Field ClusterCatalog (Table Bytes NodeRecord) :=
  ⟨(·.nodes), fun t s => { s with nodes := t }, fun _ _ => rfl, fun _ _ _ => rfl, fun _ => rfl⟩

def nodeByMemberField : Field ClusterCatalog (Table Bytes Bytes) :=
  ⟨(·.nodeByMember), fun t s => { s with nodeByMember := t }, fun _ _ => rfl, fun _ _ _ => rfl, fun _ => rfl⟩

def countersField : Field ClusterCatalog (Table String UInt64) :=
  ⟨(·.counters), fun t s => { s with counters := t }, fun _ _ => rfl, fun _ _ _ => rfl, fun _ => rfl⟩

def placementsField : Field ClusterCatalog (Table Bytes PayloadPlacement) :=
  ⟨(·.placements), fun t s => { s with placements := t }, fun _ _ => rfl, fun _ _ _ => rfl, fun _ => rfl⟩

def nodeReplicasField : Field ClusterCatalog (Table Bytes UInt8) :=
  ⟨(·.nodeReplicas), fun t s => { s with nodeReplicas := t }, fun _ _ => rfl, fun _ _ _ => rfl, fun _ => rfl⟩

def tombstonesField : Field ClusterCatalog (Table Bytes Tombstone) :=
  ⟨(·.tombstones), fun t s => { s with tombstones := t }, fun _ _ => rfl, fun _ _ _ => rfl, fun _ => rfl⟩

def tasksField : Field ClusterCatalog (Table Bytes ReplicaTask) :=
  ⟨(·.tasks), fun t s => { s with tasks := t }, fun _ _ => rfl, fun _ _ _ => rfl, fun _ => rfl⟩

def taskQueueField : Field ClusterCatalog (Table Bytes Bytes) :=
  ⟨(·.taskQueue), fun t s => { s with taskQueue := t }, fun _ _ => rfl, fun _ _ _ => rfl, fun _ => rfl⟩

def taskByObjectField : Field ClusterCatalog (Table Bytes Bytes) :=
  ⟨(·.taskByObject), fun t s => { s with taskByObject := t }, fun _ _ => rfl, fun _ _ _ => rfl, fun _ => rfl⟩

def operationsField : Field ClusterCatalog (Table Bytes ClusterOperation) :=
  ⟨(·.operations), fun t s => { s with operations := t }, fun _ _ => rfl, fun _ _ _ => rfl, fun _ => rfl⟩

def joinTokensField : Field ClusterCatalog (Table Bytes JoinToken) :=
  ⟨(·.joinTokens), fun t s => { s with joinTokens := t }, fun _ _ => rfl, fun _ _ _ => rfl, fun _ => rfl⟩

def nodeCredentialsField : Field ClusterCatalog (Table Bytes NodeCredential) :=
  ⟨(·.nodeCredentials), fun t s => { s with nodeCredentials := t }, fun _ _ => rfl, fun _ _ _ => rfl, fun _ => rfl⟩

def storagePoliciesField : Field ClusterCatalog (Table Bytes StoragePolicy) :=
  ⟨(·.storagePolicies), fun t s => { s with storagePolicies := t }, fun _ _ => rfl, fun _ _ _ => rfl, fun _ => rfl⟩

/-- Writing back the rows of a table into one that was cleared. -/
theorem putRaw_rows {K V : Type} [Ord K] [Std.TransOrd K] [Std.LawfulEqOrd K] [DecidableEq K]
    (field : Field ClusterCatalog (Table K V)) {entry : K × V → CatalogEntry}
    (hput : ∀ s r, s.putRaw (entry r) = field.set ((field.get s).insert r.1 r.2) s) (rows : Table K V)
    (hs : field.get s = ∅) : (rows.toList.map entry).foldl ClusterCatalog.putRaw s = field.set rows s := by
  have hfold := field.foldl (fun (t : Table K V) (r : K × V) => t.insert r.1 r.2) rows.toList s
  rw [hs, Table.foldl_insert_toList] at hfold
  rw [List.foldl_map]
  simp only [hput]
  exact hfold

theorem putRaw_identity {value : Option ClusterIdentity} (hs : s.identity = none) :
    (value.toList.map CatalogEntry.identity).foldl ClusterCatalog.putRaw s = { s with identity := value } := by
  cases value with
  | none =>
    show s = { s with identity := none }
    rw [← hs]
  | some value => rfl

theorem putRaw_config {value : Option ClusterConfig} (hs : s.config = none) :
    (value.toList.map CatalogEntry.config).foldl ClusterCatalog.putRaw s = { s with config := value } := by
  cases value with
  | none =>
    show s = { s with config := none }
    rw [← hs]
  | some value => rfl

/-- What was exported is what the import leaves, whatever was there. -/
theorem importTx_exportTx (s : ClusterCatalog) : importTx (exportTx s) = s := by
  unfold importTx exportTx
  simp only [List.flatten_cons, List.flatten_nil, List.append_nil, List.foldl_append]
  rw [putRaw_identity rfl, putRaw_config rfl]
  rw [putRaw_rows nodesField (fun _ _ => rfl) s.nodes rfl]
  rw [putRaw_rows nodeByMemberField (fun _ _ => rfl) s.nodeByMember rfl]
  rw [putRaw_rows countersField (fun _ _ => rfl) s.counters rfl]
  rw [putRaw_rows placementsField (fun _ _ => rfl) s.placements rfl]
  rw [putRaw_rows nodeReplicasField (fun _ _ => rfl) s.nodeReplicas rfl]
  rw [putRaw_rows tombstonesField (fun _ _ => rfl) s.tombstones rfl]
  rw [putRaw_rows tasksField (fun _ _ => rfl) s.tasks rfl]
  rw [putRaw_rows taskQueueField (fun _ _ => rfl) s.taskQueue rfl]
  rw [putRaw_rows taskByObjectField (fun _ _ => rfl) s.taskByObject rfl]
  rw [putRaw_rows operationsField (fun _ _ => rfl) s.operations rfl]
  rw [putRaw_rows joinTokensField (fun _ _ => rfl) s.joinTokens rfl]
  rw [putRaw_rows nodeCredentialsField (fun _ _ => rfl) s.nodeCredentials rfl]
  rw [putRaw_rows storagePoliciesField (fun _ _ => rfl) s.storagePolicies rfl]
  simp only [nodesField, nodeByMemberField, countersField, placementsField, nodeReplicasField,
    tombstonesField, tasksField,
    taskQueueField, taskByObjectField, operationsField, joinTokensField, nodeCredentialsField, storagePoliciesField]

end Restore

end RecordStore.Cluster

import RecordStore.Core.Values

/-!
# Cluster.Placement — replicas of a payload

`replica.rs`.  A placement lists the replicas of one immutable payload.  A replica is on a device of a
node, and a placement never lists a device twice: the field `distinct` carries that through every
operation, so that a replica can be named by where it is.
-/

namespace RecordStore.Cluster

open RecordStore.Core

/-- Explicit state of one physical replica. -/
inductive ReplicaState where
  | pending
  | healthy
  | repairing
  | stale
  | missing
  | deleting
  | corrupt
  deriving DecidableEq

/-- `usable_as_source`. -/
def ReplicaState.usableAsSource : ReplicaState → Bool
  | .healthy => true
  | _ => false

/-- A device of a node: where a replica is. -/
abbrev Slot := NodeId × DeviceId

instance Slot.lawfulBEq : LawfulBEq Slot := inferInstance

/-- `DeviceRecord::legacy_id`. -/
def legacyId (node : NodeId) : DeviceId := ⟨node.uuid⟩

def opaqueLocation (node : NodeId) (device : DeviceId) : String :=
  "node:" ++ node.uuid.simple ++ "/device:" ++ device.uuid.simple

/-- One physical replica of a payload. -/
structure Replica where
  nodeId : NodeId
  deviceId : DeviceId
  state : ReplicaState
  location : String
  size : UInt64
  checksum : Option Checksum
  createdAt : DateTime
  verifiedAt : Option DateTime
  generation : UInt64
  deriving DecidableEq

namespace Replica

def slot (r : Replica) : Slot := (r.nodeId, r.deviceId)

/-- Creates a verified record for an exact device target. -/
def healthyOn (node : NodeId) (device : DeviceId) (size : UInt64) (checksum : Checksum) (now : DateTime) : Replica where
  nodeId := node
  deviceId := device
  state := .healthy
  location := opaqueLocation node device
  size := size
  checksum := some checksum
  createdAt := now
  verifiedAt := some now
  generation := 1

/-- `(node_id, device_id)` as it is compared when replicas are sorted. -/
def order (r r' : Replica) : Prop :=
  (compare (r.nodeId.bytes ++ r.deviceId.bytes) (r'.nodeId.bytes ++ r'.deviceId.bytes)).isLE

instance : DecidableRel order := fun _ _ => inferInstanceAs (Decidable (_ = true))

instance : Std.Total order where
  total r r' := by
    unfold order
    rw [← Ordering.isGE_swap, ← Std.OrientedCmp.eq_swap]
    generalize compare (r'.nodeId.bytes ++ r'.deviceId.bytes) (r.nodeId.bytes ++ r.deviceId.bytes) = o
    cases o <;> decide

instance : IsTrans Replica order where
  trans _ _ _ := Std.TransCmp.isLE_trans

theorem order_refl (r : Replica) : r.order r := by
  have hself : compare (r.nodeId.bytes ++ r.deviceId.bytes) (r.nodeId.bytes ++ r.deviceId.bytes) = .eq :=
    Std.ReflCmp.compare_self
  unfold order
  rw [hself]
  decide

/-- Only the device counts. -/
theorem order_congr {r x y : Replica} (h : x.slot = y.slot) (hr : r.order x) : r.order y := by
  obtain ⟨hnode, hdevice⟩ := Prod.mk.inj h
  unfold order at hr ⊢
  rwa [← hnode, ← hdevice]

/-- Two replicas that sort as equal are on one device. -/
theorem slot_eq_of_order {r r' : Replica} (h : r.order r') (h' : r'.order r) : r.slot = r'.slot := by
  have heq : compare (r.nodeId.bytes ++ r.deviceId.bytes) (r'.nodeId.bytes ++ r'.deviceId.bytes) = .eq :=
    Std.OrientedCmp.isLE_antisymm h h'
  have hbytes := Std.LawfulEqCmp.eq_of_compare heq
  obtain ⟨hnode, hdevice⟩ := List.append_inj hbytes (by rw [Id.length_bytes, Id.length_bytes])
  exact Prod.ext (Id.bytes_inj.mp hnode) (Id.bytes_inj.mp hdevice)

end Replica

/-! ## Placements -/

/-- Replicated placement metadata for one immutable payload. -/
structure PayloadPlacement where
  objectId : ObjectId
  size : UInt64
  checksum : Checksum
  desiredReplicas : UInt8
  storageClass : StorageClass
  -- `ClusterMapEpoch`
  placementEpoch : UInt64
  replicas : List Replica
  createdAt : DateTime
  updatedAt : DateTime
  distinct : (replicas.map Replica.slot).Nodup
  deriving DecidableEq

/-- Sorted replicas without neighbours on one device are on distinct devices. -/
theorem nodup_slot_of_sorted : ∀ {l : List Replica}, l.Pairwise Replica.order →
    l.IsChain (fun r r' => r.slot ≠ r'.slot) → (l.map Replica.slot).Nodup
  | [], _, _ => List.nodup_nil
  | [r], _, _ => List.nodup_singleton r.slot
  | r :: r' :: l, hsorted, hchain => by
    obtain ⟨hr, hsorted'⟩ := List.pairwise_cons.mp hsorted
    obtain ⟨hne, hchain'⟩ := List.isChain_cons_cons.mp hchain
    refine List.nodup_cons.mpr ⟨?_, nodup_slot_of_sorted hsorted' hchain'⟩
    intro hmem
    obtain ⟨x, hx, hslot⟩ := List.mem_map.mp hmem
    -- whatever shares the first device sorts below the second replica, which then shares it too
    have hle : r'.order x := by
      rcases List.mem_cons.mp hx with rfl | hx
      · exact Replica.order_refl x
      · exact (List.pairwise_cons.mp hsorted').1 x hx
    have hback : r'.order r := Replica.order_congr hslot hle
    exact hne (Replica.slot_eq_of_order (hr r' List.mem_cons_self) hback)

namespace PayloadPlacement

/-- Creates a placement record with deterministic replica ordering. -/
def new (objectId : ObjectId) (size : UInt64) (checksum : Checksum) (desiredReplicas : UInt8)
    (storageClass : StorageClass) (replicas : List Replica) (now : DateTime) : PayloadPlacement where
  objectId := objectId
  size := size
  checksum := checksum
  desiredReplicas := desiredReplicas
  storageClass := storageClass
  placementEpoch := 0
  -- `sort_by_key`, then `dedup_by_key`, which drops a replica on the device of the one before it
  replicas := (replicas.insertionSort Replica.order).destutter fun r r' => r.slot ≠ r'.slot
  createdAt := now
  updatedAt := now
  distinct := nodup_slot_of_sorted
    ((List.pairwise_insertionSort Replica.order replicas).sublist (List.destutter_sublist _ _))
    (List.isChain_destutter _ _)

variable (p : PayloadPlacement)

/-! ### Changing the replicas -/

/-- The replica on the device of `r` replaced by `r`, or `r` added. -/
def upserted (replicas : List Replica) (r : Replica) : List Replica :=
  if replicas.any (·.slot = r.slot) then replicas.map fun x => if x.slot = r.slot then r else x
  else (replicas ++ [r]).insertionSort Replica.order

theorem nodup_upserted {replicas : List Replica} (h : (replicas.map Replica.slot).Nodup) (r : Replica) :
    ((upserted replicas r).map Replica.slot).Nodup := by
  unfold upserted
  split_ifs with hany
  · have hsame : (replicas.map fun x => if x.slot = r.slot then r else x).map Replica.slot =
      replicas.map Replica.slot := by
      rw [List.map_map]
      refine List.map_congr_left fun x _ => ?_
      show (if x.slot = r.slot then r else x).slot = x.slot
      split_ifs with hx
      · exact hx.symm
      · rfl
    rwa [hsame]
  · have hperm := ((List.perm_insertionSort Replica.order (replicas ++ [r])).map Replica.slot)
    rw [hperm.nodup_iff, List.map_append, List.map_singleton, ← List.concat_eq_append, List.nodup_concat]
    refine ⟨?_, h⟩
    intro hmem
    obtain ⟨x, hx, hslot⟩ := List.mem_map.mp hmem
    exact hany (List.any_eq_true.mpr ⟨x, hx, by simpa using hslot⟩)

/-- Inserts or replaces a replica, keeping deterministic order. -/
def upsertReplica (r : Replica) (now : DateTime) : PayloadPlacement :=
  { p with
    replicas := upserted p.replicas r
    updatedAt := now
    distinct := nodup_upserted p.distinct r }

/-- Keep the replicas with a property; the flag says whether any was dropped. -/
def retain (keep : Replica → Bool) (now : DateTime) : PayloadPlacement × Bool :=
  let replicas := p.replicas.filter keep
  let removed := replicas.length != p.replicas.length
  ({ p with
      replicas := replicas
      updatedAt := if removed then now else p.updatedAt
      distinct := p.distinct.sublist (List.filter_sublist.map _) }, removed)

/-- Removes the replica records on a node, returning whether anything was removed. -/
def removeReplica (node : NodeId) (now : DateTime) : PayloadPlacement × Bool :=
  p.retain (fun r => r.nodeId ≠ node) now

/-- Removes one exact device replica record. -/
def removeReplicaOn (node : NodeId) (device : DeviceId) (now : DateTime) : PayloadPlacement × Bool :=
  p.retain (fun r => r.nodeId ≠ node ∨ r.deviceId ≠ device) now

/-- The nodes holding a replica record of any state, without repetition. -/
def nodes : List NodeId := (p.replicas.map (·.nodeId)).dedup

/-! ### What the changes leave -/

variable {p} {r x : Replica} {now : DateTime}

theorem mem_upsertReplica : x ∈ (p.upsertReplica r now).replicas ↔ x = r ∨ (x ∈ p.replicas ∧ x.slot ≠ r.slot) := by
  show x ∈ upserted p.replicas r ↔ _
  unfold upserted
  split_ifs with hany
  · obtain ⟨y, hy, hslot⟩ := List.any_eq_true.mp hany
    rw [decide_eq_true_eq] at hslot
    constructor
    · intro hx
      obtain ⟨z, hz, hzx⟩ := List.mem_map.mp hx
      split_ifs at hzx with hz'
      · exact .inl hzx.symm
      · exact .inr (hzx ▸ ⟨hz, hz'⟩)
    · rintro (rfl | ⟨hx, hne⟩)
      · exact List.mem_map.mpr ⟨y, hy, if_pos hslot⟩
      · exact List.mem_map.mpr ⟨x, hx, if_neg hne⟩
  · rw [(List.perm_insertionSort Replica.order _).mem_iff, List.mem_append, List.mem_singleton]
    constructor
    · rintro (hx | hx)
      · exact .inr ⟨hx, fun h => hany (List.any_eq_true.mpr ⟨x, hx, by simpa using h⟩)⟩
      · exact .inl hx
    · rintro (hx | ⟨hx, -⟩)
      · exact .inr hx
      · exact .inl hx

theorem mem_removeReplica {node : NodeId} :
    x ∈ (p.removeReplica node now).1.replicas ↔ x ∈ p.replicas ∧ x.nodeId ≠ node := by
  show x ∈ p.replicas.filter _ ↔ _
  rw [List.mem_filter, decide_eq_true_eq]

theorem mem_removeReplicaOn {node : NodeId} {device : DeviceId} :
    x ∈ (p.removeReplicaOn node device now).1.replicas ↔ x ∈ p.replicas ∧ x.slot ≠ (node, device) := by
  show x ∈ p.replicas.filter _ ↔ _
  have hslot : x.slot = (node, device) ↔ x.nodeId = node ∧ x.deviceId = device := Prod.ext_iff
  simp only [List.mem_filter, decide_eq_true_eq, ne_eq, hslot, not_and_or]

end PayloadPlacement

end RecordStore.Cluster

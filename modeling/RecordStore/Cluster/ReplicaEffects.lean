import RecordStore.Cluster.Footprint

/-!
# Cluster.ReplicaEffects — what each command does to the replica tables

Ten commands write the placements, the tombstones or the node-replica index, eight write the record of a
member, and the rest write neither.  `ReplicaEffect` says for each kind what is different afterwards; the
invariants of the replica tables are proved from it and never look at a command again.
-/

namespace RecordStore.Cluster

open RecordStore.Lib RecordStore.Core Tx

/-! ## Rows of the node-replica index -/

theorem nodeReplicaKey_inj {n n' : NodeId} {i i' : ObjectId} {d d' : DeviceId} :
    nodeReplicaKey n i d = nodeReplicaKey n' i' d' ↔ n = n' ∧ i = i' ∧ d = d' := by
  unfold nodeReplicaKey
  constructor
  · intro h
    obtain ⟨hni, hd⟩ := List.append_inj h (by simp)
    obtain ⟨hn, hi⟩ := List.append_inj hni (by simp)
    exact ⟨Id.bytes_inj.mp hn, Id.bytes_inj.mp hi, Id.bytes_inj.mp hd⟩
  · rintro ⟨rfl, rfl, rfl⟩
    rfl

@[simp] theorem length_nodeReplicaKey (n : NodeId) (i : ObjectId) (d : DeviceId) :
    (nodeReplicaKey n i d).length = 48 := by
  simp [nodeReplicaKey]

/-- The bytes a count by device compares. -/
theorem device_nodeReplicaKey (n : NodeId) (i : ObjectId) (d : DeviceId) :
    ((nodeReplicaKey n i d).drop 32).take 16 = d.bytes := by
  unfold nodeReplicaKey
  rw [List.drop_left' (by simp), List.take_of_length_le (by simp)]

/-- A scan over the keys that start with the node finds all of them.  The upper end of the scan is too low
for the identifier of `0xff` bytes only. -/
def Scannable (n : NodeId) : Prop := ∃ b ∈ n.bytes, b ≠ 255

instance : DecidablePred Scannable := fun n => inferInstanceAs (Decidable (∃ b ∈ n.bytes, b ≠ 255))

theorem inRange_nodeReplicaKey {n : NodeId} (h : Scannable n) (i : ObjectId) (d : DeviceId) :
    InRange n.bytes (prefixSuccessor n.bytes) (nodeReplicaKey n i d) := by
  unfold nodeReplicaKey
  rw [List.append_assoc]
  exact inRange_append (.inl h)

/-- The devices a placement lists. -/
def PayloadPlacement.slots (p : PayloadPlacement) : List Slot := p.replicas.map Replica.slot

theorem PayloadPlacement.mem_slots {p : PayloadPlacement} {x : Slot} : x ∈ p.slots ↔ ∃ r ∈ p.replicas, r.slot = x :=
  List.mem_map

/-- The node of a listed device is one of the placement's nodes. -/
theorem PayloadPlacement.mem_nodes {p : PayloadPlacement} {x : Slot} (h : x ∈ p.slots) : x.1 ∈ p.nodes := by
  obtain ⟨r, hr, rfl⟩ := PayloadPlacement.mem_slots.mp h
  exact List.mem_dedup.mpr (List.mem_map_of_mem hr)

namespace ClusterCatalog

variable {s : ClusterCatalog} {n node : NodeId} {i id : ObjectId} {d device : DeviceId} {v : UInt8}

/-- The index row of a replica. -/
def row (s : ClusterCatalog) (n : NodeId) (i : ObjectId) (d : DeviceId) : Option UInt8 :=
  s.nodeReplicas[nodeReplicaKey n i d]?

/-- Every key of the index is that of a replica. -/
def Shaped (s : ClusterCatalog) : Prop :=
  ∀ key v, s.nodeReplicas[key]? = some v → ∃ n i d, key = nodeReplicaKey n i d

section Index

variable {replicas : List Replica} {state : Replica → ReplicaState}

theorem nodup_replicaKeys (h : (replicas.map Replica.slot).Nodup) :
    (replicas.map fun r => nodeReplicaKey r.nodeId id r.deviceId).Nodup := by
  have hkeys := h.map (f := fun x : Slot => nodeReplicaKey x.1 id x.2) fun x y hxy => by
    obtain ⟨hn, -, hd⟩ := nodeReplicaKey_inj.mp hxy
    exact Prod.ext hn hd
  rwa [List.map_map] at hkeys

theorem row_indexReplicas_of_mem (h : (replicas.map Replica.slot).Nodup) {r : Replica} (hr : r ∈ replicas) :
    (s.indexReplicas id replicas state).row r.nodeId id r.deviceId = some (replicaStateCode (state r)) :=
  Table.lookup_foldl_insert_of_mem (f := fun r : Replica => nodeReplicaKey r.nodeId id r.deviceId)
    (g := fun r => replicaStateCode (state r)) (nodup_replicaKeys h) hr

theorem row_indexReplicas_of_not_mem (h : i = id → (n, d) ∉ replicas.map Replica.slot) :
    (s.indexReplicas id replicas state).row n i d = s.row n i d := by
  refine Table.lookup_foldl_insert_of_not_mem (f := fun r : Replica => nodeReplicaKey r.nodeId id r.deviceId)
    (g := fun r => replicaStateCode (state r)) fun r hr he => ?_
  obtain ⟨rfl, rfl, rfl⟩ := nodeReplicaKey_inj.mp he
  exact h rfl (List.mem_map_of_mem hr)

theorem Shaped.indexReplicas (h : s.Shaped) : (s.indexReplicas id replicas state).Shaped := by
  intro key v hv
  by_cases hkey : ∃ r ∈ replicas, nodeReplicaKey r.nodeId id r.deviceId = key
  · obtain ⟨r, -, rfl⟩ := hkey
    exact ⟨_, _, _, rfl⟩
  · have hold : s.nodeReplicas[key]? = some v := by
      rw [← hv]
      exact (Table.lookup_foldl_insert_of_not_mem (f := fun r : Replica => nodeReplicaKey r.nodeId id r.deviceId)
        (g := fun r => replicaStateCode (state r)) fun r hr he => hkey ⟨r, hr, he⟩).symm
    exact h key v hold

end Index

section Remove

theorem lookup_removeNodeReplica (s : ClusterCatalog) (node : NodeId) (id : ObjectId) (key : Bytes) :
    (s.removeNodeReplica node id).nodeReplicas[key]? =
      if InRange (node.bytes ++ id.bytes) (prefixSuccessor (node.bytes ++ id.bytes)) key then none
      else s.nodeReplicas[key]? := by
  refine (Table.lookup_foldl_erase Prod.fst _ s.nodeReplicas key).trans ?_
  cases hv : s.nodeReplicas[key]? with
  | none => rw [ite_self, ite_self]
  | some v =>
    have hmem : key ∈ (s.nodeReplicas.rowsIn (node.bytes ++ id.bytes) (prefixSuccessor (node.bytes ++ id.bytes))).map
        Prod.fst ↔ InRange (node.bytes ++ id.bytes) (prefixSuccessor (node.bytes ++ id.bytes)) key := by
      rw [List.mem_map]
      constructor
      · rintro ⟨⟨k, w⟩, hkw, rfl⟩
        exact (Table.mem_rowsIn.mp hkw).2
      · exact fun hin => ⟨(key, v), Table.mem_rowsIn.mpr ⟨hv, hin⟩, rfl⟩
    simp only [hmem]

theorem row_removeNodeReplica_of_ne (h : ¬ (n = node ∧ i = id)) :
    (s.removeNodeReplica node id).row n i d = s.row n i d := by
  refine (lookup_removeNodeReplica s node id _).trans (if_neg fun hin => h ?_)
  have hprefix := prefix_of_inRange hin
  obtain ⟨rest, hrest⟩ := hprefix
  obtain ⟨hhead, -⟩ := List.append_inj hrest (by simp)
  obtain ⟨hn, hi⟩ := List.append_inj hhead (by simp)
  exact ⟨(Id.bytes_inj.mp hn).symm, (Id.bytes_inj.mp hi).symm⟩

theorem row_removeNodeReplica_self (h : Scannable node) : (s.removeNodeReplica node id).row node id d = none := by
  refine (lookup_removeNodeReplica s node id _).trans (if_pos ?_)
  obtain ⟨b, hb, hne⟩ := h
  exact inRange_append (.inl ⟨b, List.mem_append_left _ hb, hne⟩)

theorem of_row_removeNodeReplica (h : (s.removeNodeReplica node id).row n i d = some v) : s.row n i d = some v := by
  have hlookup := lookup_removeNodeReplica s node id (nodeReplicaKey n i d)
  unfold row at h
  rw [h] at hlookup
  split_ifs at hlookup
  exact hlookup.symm

theorem Shaped.removeNodeReplica (h : s.Shaped) : (s.removeNodeReplica node id).Shaped := by
  intro key v hv
  rw [lookup_removeNodeReplica] at hv
  split_ifs at hv
  exact h key v hv

theorem row_removeDeviceReplica :
    (s.removeDeviceReplica node device id).row n i d = if n = node ∧ i = id ∧ d = device then none
    else s.row n i d := by
  refine (Table.lookup_erase s.nodeReplicas _ _).trans ?_
  simp only [nodeReplicaKey_inj]
  rfl

theorem Shaped.removeDeviceReplica (h : s.Shaped) : (s.removeDeviceReplica node device id).Shaped := by
  intro key v hv
  have hlookup := Table.lookup_erase s.nodeReplicas (nodeReplicaKey node id device) key
  rw [show (s.nodeReplicas.erase (nodeReplicaKey node id device))[key]? = some v from hv] at hlookup
  split_ifs at hlookup
  exact h key v hlookup.symm

end Remove

/-- The tables about replicas and the members. -/
def footing (s : ClusterCatalog) :
    (Table Bytes PayloadPlacement × Table Bytes UInt8 × Table Bytes Tombstone) × Table Bytes NodeRecord :=
  (s.replicas, s.nodes)

end ClusterCatalog

open ClusterCatalog

variable {s s' : ClusterCatalog} {o : ClusterOutcome} {c : ClusterCommand}

namespace ClusterCommand

/-- The payload whose placement a command changes, when there is one. -/
def revised : ClusterCommand → Option ObjectId
  | upsertReplica id _ _ | setReplicaState id _ _ _ _ _ | setReplicaStateOnDevice id _ _ _ _ _ _ | removeReplica id _ _
  | removeReplicaFromDevice id _ _ _ | setDesiredReplicas id _ _ => some id
  | _ => none

/-- The placement a command writes whatever was there. -/
def puts : ClusterCommand → Option PayloadPlacement
  | putPlacement p => some p
  | _ => none

/-- The payload whose tombstone a command purges. -/
def purges : ClusterCommand → Option ObjectId
  | purgeTombstone id => some id
  | _ => none

/-- The devices a command says hold a replica. -/
def lists : ClusterCommand → List Slot
  | putPlacement p => p.slots
  | upsertReplica _ r _ => [r.slot]
  | _ => []

end ClusterCommand

/-! ## Commands that write replicas -/

/-- A placement is under the key of its payload. -/
def ClusterCatalog.Keyed (s : ClusterCatalog) : Prop :=
  ∀ (key : Bytes) (p : PayloadPlacement), s.placements[key]? = some p → p.objectId.bytes = key

theorem ClusterCatalog.Keyed.objectId (hk : s.Keyed) {id : ObjectId} {p : PayloadPlacement}
    (hp : s.placement id = some p) : p.objectId = id := Id.bytes_inj.mp (hk id.bytes p hp)

/-- The placement `p` was written, with an index row for each replica it lists. -/
structure Writes (s : ClusterCatalog) (p : PayloadPlacement) (s' : ClusterCatalog) : Prop where
  placements : s'.placements = s.placements.insert p.objectId.bytes p
  tombstones : s'.tombstones = s.tombstones
  nodes : s'.nodes = s.nodes
  listed : ∀ r ∈ p.replicas, s'.row r.nodeId p.objectId r.deviceId = some (replicaStateCode r.state)
  others : ∀ n i d, i ≠ p.objectId → s'.row n i d = s.row n i d
  -- an unlisted row may be dropped, and none appears
  unlisted : ∀ n d v, (n, d) ∉ p.slots → s'.row n p.objectId d = some v → s.row n p.objectId d = some v
  shaped : s.Shaped → s'.Shaped

/-- `p'` was written over the placement `p` it was made from. -/
structure Revises (s : ClusterCatalog) (c : ClusterCommand) (id : ObjectId) (p p' : PayloadPlacement)
    (s' : ClusterCatalog) : Prop extends Writes s p' s' where
  found : s.placement id = some p
  objectId : p'.objectId = id
  added : ∀ x ∈ p'.slots, x ∈ p.slots ∨ x ∈ c.lists
  dropped : ∀ n d, (n, d) ∈ p.slots → (n, d) ∉ p'.slots → Scannable n → s'.row n id d = none

/-- The placement `p` became a tombstone, and its index rows say so. -/
structure Deletes (s : ClusterCatalog) (id : ObjectId) (p : PayloadPlacement) (time : DateTime) (s' : ClusterCatalog) :
    Prop where
  found : s.placement id = some p
  placements : s'.placements = s.placements.erase id.bytes
  tombstones : s'.tombstones = s.tombstones.insert id.bytes (.new id p.nodes time)
  nodes : s'.nodes = s.nodes
  listed : ∀ r ∈ p.replicas, s'.row r.nodeId id r.deviceId = some (replicaStateCode .deleting)
  others : ∀ n i d, (i = id → (n, d) ∉ p.slots) → s'.row n i d = s.row n i d
  shaped : s.Shaped → s'.Shaped

/-- The node acknowledged the tombstone `t`, and its index rows of the payload are gone. -/
structure Acknowledges (s : ClusterCatalog) (id : ObjectId) (node : NodeId) (t : Tombstone) (time : DateTime)
    (s' : ClusterCatalog) : Prop where
  found : s.tombstone id = some t
  placements : s'.placements = s.placements
  tombstones : s'.tombstones = s.tombstones.insert id.bytes (t.acknowledge node time)
  nodes : s'.nodes = s.nodes
  others : ∀ n i d, ¬ (n = node ∧ i = id) → s'.row n i d = s.row n i d
  gone : Scannable node → ∀ d, s'.row node id d = none
  fewer : ∀ n i d v, s'.row n i d = some v → s.row n i d = some v
  shaped : s.Shaped → s'.Shaped

/-- What a command does to the replica tables. -/
inductive ReplicaEffect (s : ClusterCatalog) : ClusterCommand → ClusterCatalog → Prop
  | other {c : ClusterCommand} {s' : ClusterCatalog} (hc : c.payload = none) (h : s'.replicas = s.replicas) :
      ReplicaEffect s c s'
  | put {p : PayloadPlacement} {s' : ClusterCatalog} (h : Writes s p s') : ReplicaEffect s (.putPlacement p) s'
  | revise {c : ClusterCommand} {id : ObjectId} {p p' : PayloadPlacement} {s' : ClusterCatalog}
      (hc : c.revised = some id) (h : Revises s c id p p' s') : ReplicaEffect s c s'
  | absent {id : ObjectId} {time : DateTime} (h : s.placement id = none) : ReplicaEffect s (.deletePlacement id time) s
  | delete {id : ObjectId} {p : PayloadPlacement} {time : DateTime} {s' : ClusterCatalog} (h : Deletes s id p time s') :
      ReplicaEffect s (.deletePlacement id time) s'
  | acknowledge {id : ObjectId} {node : NodeId} {t : Tombstone} {time : DateTime} {s' : ClusterCatalog}
      (h : Acknowledges s id node t time s') : ReplicaEffect s (.acknowledgeTombstone id node time) s'
  | purge {id : ObjectId} {s' : ClusterCatalog}
      (h : s'.footing = { s with tombstones := s.tombstones.erase id.bytes }.footing) :
      ReplicaEffect s (.purgeTombstone id) s'

/-! ### The effect of writing a placement -/

theorem writes_writePlacement (s : ClusterCatalog) (p : PayloadPlacement) (before : UInt64) :
    Writes s p (s.writePlacement p before) where
  placements := rfl
  tombstones := rfl
  nodes := rfl
  listed _ hr := row_indexReplicas_of_mem p.distinct hr
  others _ _ _ hi := row_indexReplicas_of_not_mem fun h => absurd h hi
  unlisted _ _ _ hx h := (row_indexReplicas_of_not_mem fun _ => hx).symm.trans h
  shaped h := Shaped.indexReplicas h

/-- What is dropped of the index before the placement is written stays dropped. -/
theorem Writes.after {t : ClusterCatalog} {p : PayloadPlacement} (h : Writes t p s')
    (hplacements : t.placements = s.placements)
    (htombstones : t.tombstones = s.tombstones) (hnodes : t.nodes = s.nodes)
    (hothers : ∀ n i d, i ≠ p.objectId → t.row n i d = s.row n i d)
    (hfewer : ∀ n d v, t.row n p.objectId d = some v → s.row n p.objectId d = some v) (hshaped : s.Shaped → t.Shaped) :
    Writes s p s' where
  placements := hplacements ▸ h.placements
  tombstones := h.tombstones.trans htombstones
  nodes := h.nodes.trans hnodes
  listed := h.listed
  others n i d hi := (h.others n i d hi).trans (hothers n i d hi)
  unlisted n d v hx hv := hfewer n d v (h.unlisted n d v hx hv)
  shaped hs := h.shaped (hshaped hs)

theorem Writes.row_eq_none {t : ClusterCatalog} {p : PayloadPlacement} (h : Writes t p s') {n : NodeId} {d : DeviceId}
    (hx : (n, d) ∉ p.slots) (hnone : t.row n p.objectId d = none) : s'.row n p.objectId d = none := by
  refine Option.eq_none_iff_forall_not_mem.mpr fun v hv => ?_
  rw [h.unlisted n d v hx hv] at hnone
  cases hnone

theorem mem_slots_upsertReplica {p : PayloadPlacement} {r : Replica} {time : DateTime} {x : Slot} :
    x ∈ (p.upsertReplica r time).slots ↔ x ∈ p.slots ∨ x = r.slot := by
  simp only [PayloadPlacement.mem_slots, PayloadPlacement.mem_upsertReplica]
  constructor
  · rintro ⟨y, rfl | ⟨hy, -⟩, rfl⟩
    · exact .inr rfl
    · exact .inl ⟨y, hy, rfl⟩
  · rintro (⟨y, hy, rfl⟩ | rfl)
    · by_cases h : y.slot = r.slot
      · exact ⟨r, .inl rfl, h.symm⟩
      · exact ⟨y, .inr ⟨hy, h⟩, rfl⟩
    · exact ⟨r, .inl rfl, rfl⟩

theorem mem_slots_removeReplica {p : PayloadPlacement} {node : NodeId} {time : DateTime} {x : Slot} :
    x ∈ (p.removeReplica node time).1.slots ↔ x ∈ p.slots ∧ x.1 ≠ node := by
  simp only [PayloadPlacement.mem_slots, PayloadPlacement.mem_removeReplica]
  constructor
  · rintro ⟨y, ⟨hy, hne⟩, rfl⟩
    exact ⟨⟨y, hy, rfl⟩, hne⟩
  · rintro ⟨⟨y, hy, rfl⟩, hne⟩
    exact ⟨y, ⟨hy, hne⟩, rfl⟩

theorem mem_slots_removeReplicaOn {p : PayloadPlacement} {node : NodeId} {device : DeviceId}
    {time : DateTime} {x : Slot} :
    x ∈ (p.removeReplicaOn node device time).1.slots ↔ x ∈ p.slots ∧ x ≠ (node, device) := by
  simp only [PayloadPlacement.mem_slots, PayloadPlacement.mem_removeReplicaOn]
  constructor
  · rintro ⟨y, ⟨hy, hne⟩, rfl⟩
    exact ⟨⟨y, hy, rfl⟩, hne⟩
  · rintro ⟨⟨y, hy, rfl⟩, hne⟩
    exact ⟨y, ⟨hy, hne⟩, rfl⟩

/-- A retained list as long as before dropped nothing. -/
theorem PayloadPlacement.slots_retain_of_false {p : PayloadPlacement} {keep : Replica → Bool} {time : DateTime}
    (h : (p.retain keep time).2 = false) : (p.retain keep time).1.slots = p.slots := by
  have hlength : (p.replicas.filter keep).length = p.replicas.length := by
    simpa [PayloadPlacement.retain] using h
  have hsame : p.replicas.filter keep = p.replicas := List.filter_sublist.eq_of_length hlength
  show (p.replicas.filter keep).map Replica.slot = p.replicas.map Replica.slot
  rw [hsame]

/-! ### One effect for each command -/

section Revise

variable {id : ObjectId} {p p' : PayloadPlacement} {before : UInt64}

/-- An update that drops nothing. -/
theorem revises_of_added (hk : s.Keyed) (hp : s.placement id = some p) (hid : p'.objectId = p.objectId)
    (hkept : ∀ x ∈ p.slots, x ∈ p'.slots) (hadded : ∀ x ∈ p'.slots, x ∈ p.slots ∨ x ∈ c.lists) :
    Revises s c id p p' (s.writePlacement p' before) where
  toWrites := writes_writePlacement s p' before
  found := hp
  objectId := hid.trans (hk.objectId hp)
  added := hadded
  dropped _ _ hx hx' := absurd (hkept _ hx) hx'

theorem revises_setState (hk : s.Keyed) (hp : s.placement id = some p) {found : Replica → Bool} {r : Replica}
    (hr : p.replicas.find? found = some r) {state : ReplicaState} {checksum : Option Checksum} {verified : Bool}
    {time : DateTime} :
    Revises s c id p (p.upsertReplica (r.setState state checksum verified time) time)
      (s.writePlacement (p.upsertReplica (r.setState state checksum verified time) time) before) := by
  have hslot : r.slot ∈ p.slots := List.mem_map_of_mem (List.mem_of_find?_eq_some hr)
  refine revises_of_added hk hp rfl (fun x hx => mem_slots_upsertReplica.mpr (.inl hx)) fun x hx => ?_
  rcases mem_slots_upsertReplica.mp hx with hx | rfl
  · exact .inl hx
  · exact .inl hslot

theorem revises_removeReplica (hk : s.Keyed) (hp : s.placement id = some p) {node : NodeId} {time : DateTime} :
    Revises s c id p (p.removeReplica node time).1
      ((s.removeNodeReplica node id).writePlacement (p.removeReplica node time).1 before) := by
  have hwrites := writes_writePlacement (s.removeNodeReplica node id) (p.removeReplica node time).1 before
  have hid : (p.removeReplica node time).1.objectId = id := show p.objectId = id from hk.objectId hp
  refine { toWrites := hwrites.after rfl rfl rfl (fun n i d hi => ?_) (fun n d v hv => ?_) Shaped.removeNodeReplica,
           found := hp, objectId := hid, added := fun x hx => .inl (mem_slots_removeReplica.mp hx).1, dropped := ?_ }
  · exact row_removeNodeReplica_of_ne fun h => hi (h.2.trans hid.symm)
  · exact of_row_removeNodeReplica hv
  · intro n d hx hx' hscan
    obtain rfl : n = node := by
      by_contra hne
      exact hx' (mem_slots_removeReplica.mpr ⟨hx, hne⟩)
    have hgone := hwrites.row_eq_none hx' (hid ▸ row_removeNodeReplica_self hscan)
    rwa [hid] at hgone

theorem revises_removeReplicaOn (hk : s.Keyed) (hp : s.placement id = some p) {node : NodeId} {device : DeviceId}
    {time : DateTime} :
    Revises s c id p (p.removeReplicaOn node device time).1
      ((s.removeDeviceReplica node device id).writePlacement (p.removeReplicaOn node device time).1 before) := by
  have hwrites :=
    writes_writePlacement (s.removeDeviceReplica node device id) (p.removeReplicaOn node device time).1 before
  have hid : (p.removeReplicaOn node device time).1.objectId = id := show p.objectId = id from hk.objectId hp
  refine { toWrites := hwrites.after rfl rfl rfl (fun n i d hi => ?_) (fun n d v hv => ?_) Shaped.removeDeviceReplica,
           found := hp, objectId := hid, added := fun x hx => .inl (mem_slots_removeReplicaOn.mp hx).1, dropped := ?_ }
  · exact row_removeDeviceReplica.trans (if_neg fun h => hi (h.2.1.trans hid.symm))
  · rw [row_removeDeviceReplica] at hv
    split_ifs at hv
    exact hv
  · intro n d hx hx' _
    obtain ⟨rfl, rfl⟩ : n = node ∧ d = device := by
      by_contra hne
      exact hx' (mem_slots_removeReplicaOn.mpr ⟨hx, fun e => hne (Prod.mk.inj e)⟩)
    have hgone := hwrites.row_eq_none hx' (row_removeDeviceReplica.trans (if_pos ⟨rfl, hid, rfl⟩))
    rwa [hid] at hgone

/-- An update that removes nothing writes the placement back as it was. -/
theorem revises_retain (hk : s.Keyed) (hp : s.placement id = some p) {keep : Replica → Bool} {time : DateTime}
    (h : ¬ (p.retain keep time).2 = true) :
    Revises s c id p (p.retain keep time).1 (s.writePlacement (p.retain keep time).1 before) := by
  have hslots := PayloadPlacement.slots_retain_of_false (eq_false_of_ne_true h)
  exact revises_of_added hk hp rfl (fun x hx => hslots ▸ hx) fun x hx => .inl (hslots ▸ hx)

end Revise

theorem deletes_of_returns {id : ObjectId} {time : DateTime} (h : Returns (deletePlacement id time) s o s') :
    ReplicaEffect s (.deletePlacement id time) s' := by
  simp only [deletePlacement, returns_bind, returns_read] at h
  obtain ⟨found, _, ⟨hfound, rfl⟩, h⟩ := h
  cases found with
  | none =>
    obtain ⟨-, rfl⟩ := returns_pure.mp h
    exact .absent hfound.symm
  | some p =>
    simp only [returns_bind, returns_read, returns_modify, returns_when, returns_pure] at h
    -- the counter of tombstones is the only difference between the two ways
    obtain ⟨_, _, ⟨-, rfl⟩, _, _, rfl, _, _, ⟨-, rfl⟩ | ⟨-, rfl⟩, _, _, rfl, _, _, rfl, _, _, rfl, -, rfl⟩ := h
    all_goals
      exact .delete
        { found := hfound.symm
          placements := rfl
          tombstones := rfl
          nodes := rfl
          listed := fun r hr => row_indexReplicas_of_mem p.distinct hr
          others := fun n i d hi => row_indexReplicas_of_not_mem hi
          shaped := fun hs => Shaped.indexReplicas hs }

theorem acknowledges_of_returns {id : ObjectId} {node : NodeId} {time : DateTime}
    (h : Returns (applyCommandTx (.acknowledgeTombstone id node time)) s o s') :
    ReplicaEffect s (.acknowledgeTombstone id node time) s' := by
  simp only [applyCommandTx, returns_bind, returns_read, returns_okOr, returns_modify, returns_pure] at h
  obtain ⟨_, _, ⟨rfl, rfl⟩, t, _, ⟨ht, rfl⟩, _, _, rfl, -, rfl⟩ := h
  exact .acknowledge
    { found := ht
      placements := rfl
      tombstones := rfl
      nodes := rfl
      others := fun n i d hne => row_removeNodeReplica_of_ne hne
      gone := fun hscan d => row_removeNodeReplica_self hscan
      fewer := fun n i d v hv => of_row_removeNodeReplica hv
      shaped := fun hs => Shaped.removeNodeReplica hs }

/-- The effect of every command. -/
theorem replicaEffect_of_returns (hk : s.Keyed) (h : Returns (applyCommandTx c) s o s') : ReplicaEffect s c s' := by
  cases c with
  | putPlacement p =>
    simp only [applyCommandTx, putPlacement, returns_bind, returns_read] at h
    obtain ⟨existing, _, ⟨-, rfl⟩, h⟩ := h
    -- whether there was one makes a difference to the counters only
    cases existing
    all_goals
      simp only [returns_bind, returns_modify, returns_pure] at h
      obtain ⟨_, _, rfl, _, _, rfl, -, rfl⟩ := h
      exact .put ((writes_writePlacement _ p _).after rfl rfl rfl (fun _ _ _ _ => rfl) (fun _ _ _ hv => hv) id)
  | upsertReplica id r time =>
    simp only [applyCommandTx, returns_updatePlacement, returns_pure] at h
    obtain ⟨p, _, _, hp, ⟨rfl, rfl⟩, rfl, -⟩ := h
    refine .revise rfl (revises_of_added hk hp rfl (fun x hx => mem_slots_upsertReplica.mpr (.inl hx)) fun x hx => ?_)
    rcases mem_slots_upsertReplica.mp hx with hx | rfl
    · exact .inl hx
    · exact .inr List.mem_cons_self
  | setReplicaState | setReplicaStateOnDevice =>
    simp only [applyCommandTx, setStateWhere, returns_updatePlacement, returns_bind, returns_okOr, returns_pure] at h
    obtain ⟨p, _, _, hp, ⟨r, _, ⟨hr, rfl⟩, rfl, rfl⟩, rfl, -⟩ := h
    exact .revise rfl (revises_setState hk hp hr)
  | removeReplica id node time =>
    simp only [applyCommandTx, returns_updatePlacement, returns_bind, returns_when, returns_modify, returns_pure] at h
    obtain ⟨p, _, _, hp, ⟨_, _, ⟨-, rfl⟩ | ⟨hremoved, rfl⟩, rfl, rfl⟩, rfl, -⟩ := h
    · exact .revise rfl (revises_removeReplica hk hp)
    · exact .revise rfl (revises_retain hk hp hremoved)
  | removeReplicaFromDevice id node device time =>
    simp only [applyCommandTx, returns_updatePlacement, returns_bind, returns_when, returns_modify, returns_pure] at h
    obtain ⟨p, _, _, hp, ⟨_, _, ⟨-, rfl⟩ | ⟨hremoved, rfl⟩, rfl, rfl⟩, rfl, -⟩ := h
    · exact .revise rfl (revises_removeReplicaOn hk hp)
    · exact .revise rfl (revises_retain hk hp hremoved)
  | setDesiredReplicas id desired time =>
    simp only [applyCommandTx, returns_updatePlacement, returns_pure] at h
    obtain ⟨p, _, _, hp, ⟨rfl, rfl⟩, rfl, -⟩ := h
    exact .revise rfl (revises_of_added hk hp rfl (fun x hx => hx) fun x hx => .inl hx)
  | deletePlacement id time => exact deletes_of_returns h
  | acknowledgeTombstone id node time => exact acknowledges_of_returns h
  | purgeTombstone id =>
    simp only [applyCommandTx, returns_bind, returns_read, returns_modify, returns_when, returns_pure] at h
    obtain ⟨_, _, ⟨-, rfl⟩, _, _, rfl, _, _, ⟨-, rfl⟩ | ⟨-, rfl⟩, -, rfl⟩ := h
    · exact .purge rfl
    · exact .purge rfl
  | _ => exact .other rfl (replicas_of_returns h rfl)

end RecordStore.Cluster

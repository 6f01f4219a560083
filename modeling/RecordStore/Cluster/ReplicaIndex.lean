import RecordStore.Cluster.Tombstones

/-!
# Cluster.ReplicaIndex — the node-replica index and its counts

The index has a row for each replica some placement lists and one for each that a pending node still has
to delete.  Whether a device may be removed and whether a node may be forgotten is decided by counting
these rows.  Writing a placement adds rows and takes none away, so the index stays exact only while no
placement is overwritten by one that lists fewer devices.
-/

namespace RecordStore.Cluster

open RecordStore.Lib RecordStore.Core

namespace Chronicle

variable {x x' : Chronicle} {c : ClusterCommand} {s' : ClusterCatalog} {id i : ObjectId} {n node : NodeId}
  {d : DeviceId} {y : Slot} {v : UInt8}

/-- The placement of the payload lists the device. -/
def Listed (x : Chronicle) (y : Slot) (id : ObjectId) : Prop := ∃ p, x.catalog.placement id = some p ∧ y ∈ p.slots

/-- The device held the payload when it was deleted, and its node is still pending. -/
def Waiting (x : Chronicle) (y : Slot) (id : ObjectId) : Prop :=
  ∃ t held, x.catalog.tombstone id = some t ∧ x.heldFor id = some held ∧ y ∈ held ∧ y.1 ∈ t.pendingNodes

/-- The rows there should be, each with its value. -/
inductive Expected (x : Chronicle) : Bytes → UInt8 → Prop
  | listed {id : ObjectId} {p : PayloadPlacement} {r : Replica} (hp : x.catalog.placement id = some p)
      (hr : r ∈ p.replicas) : Expected x (nodeReplicaKey r.nodeId id r.deviceId) (replicaStateCode r.state)
  | waiting {id : ObjectId} {y : Slot} (h : x.Waiting y id) :
      Expected x (nodeReplicaKey y.1 id y.2) (replicaStateCode .deleting)

theorem Expected.of_key (h : x.Expected (nodeReplicaKey n id d) v) : x.Listed (n, d) id ∨ x.Waiting (n, d) id := by
  generalize hkey : nodeReplicaKey n id d = key at h
  cases h with
  | listed hp hr =>
    obtain ⟨rfl, rfl, rfl⟩ := nodeReplicaKey_inj.mp hkey
    exact .inl ⟨_, hp, List.mem_map_of_mem hr⟩
  | waiting hw =>
    obtain ⟨rfl, rfl, rfl⟩ := nodeReplicaKey_inj.mp hkey
    exact .inr hw

/-- The replicas there are on the devices with a property. -/
def replicasOn (x : Chronicle) (on : Slot → Prop) : Set (Slot × ObjectId) :=
  {k | (x.Listed k.1 k.2 ∨ x.Waiting k.1 k.2) ∧ on k.1}

/-- The index has exactly the rows it should have, and its counts are the numbers of replicas. -/
structure IndexExact (x : Chronicle) : Prop where
  rows : ∀ key v, x.catalog.nodeReplicas[key]? = some v ↔ x.Expected key v
  nodeCount : ∀ node,
    (x.catalog.nodeReplicaCount node).toNat = min (x.replicasOn fun y => y.1 = node).ncard (2 ^ 64 - 1)
  deviceCount : ∀ node device,
    (x.catalog.deviceReplicaCount node device).toNat = min (x.replicasOn fun y => y = (node, device)).ncard (2 ^ 64 - 1)

/-- Beside what keeps deleted payloads deleted: a placement is overwritten only by one that lists all its
devices, and no replica is on the node a scan cannot cover. -/
def Covering (x : Chronicle) (c : ClusterCommand) : Prop :=
  x.Fresh c ∧
    (∀ p ∈ c.puts.toList, ∀ q ∈ (x.catalog.placement p.objectId).toList, ∀ y ∈ q.slots, y ∈ p.slots) ∧
    ∀ y ∈ c.lists, Scannable y.1

instance (x : Chronicle) (c : ClusterCommand) : Decidable (x.Covering c) := inferInstanceAs (Decidable (_ ∧ _ ∧ _))

/-- The invariant, by the replica that a row is about. -/
structure Indexed (x : Chronicle) : Prop where
  buried : Buried x
  shaped : x.catalog.Shaped
  listed : ∀ id p, x.catalog.placement id = some p → ∀ r ∈ p.replicas,
    x.catalog.row r.nodeId id r.deviceId = some (replicaStateCode r.state)
  waiting : ∀ id y, x.Waiting y id → x.catalog.row y.1 id y.2 = some (replicaStateCode .deleting)
  sound : ∀ id y v, x.catalog.row y.1 id y.2 = some v → x.Listed y id ∨ x.Waiting y id
  scannable : ∀ id y, x.Listed y id ∨ x.Waiting y id → Scannable y.1

namespace Indexed

theorem waiting_ne (h : Buried x) {p : PayloadPlacement} (hp : x.catalog.placement id = some p) : ¬ x.Waiting y id := by
  rintro ⟨t, held, ht, -⟩
  rw [h.tombstone_eq_none hp] at ht
  cases ht

theorem empty : Indexed .empty where
  buried := .empty
  shaped key v h := by
    rw [show Chronicle.empty.catalog.nodeReplicas[key]? = none from Table.lookup_empty _] at h
    cases h
  listed id p h := by
    rw [show Chronicle.empty.catalog.placement id = none from Table.lookup_empty _] at h
    cases h
  waiting id y h := by
    obtain ⟨t, held, h, -⟩ := h
    rw [show Chronicle.empty.catalog.tombstone id = none from Table.lookup_empty _] at h
    cases h
  sound id y v h := by
    rw [show Chronicle.empty.catalog.row y.1 id y.2 = none from Table.lookup_empty _] at h
    cases h
  scannable id y h := by
    rcases h with ⟨p, h, -⟩ | ⟨t, held, h, -⟩
    · rw [show Chronicle.empty.catalog.placement id = none from Table.lookup_empty _] at h
      cases h
    · rw [show Chronicle.empty.catalog.tombstone id = none from Table.lookup_empty _] at h
      cases h

/-! ### One lemma for each effect -/

/-- A command that leaves the placements, the rows and the devices that wait alone. -/
theorem keep (h : Indexed x) (hb : Buried (x.record c s')) (hplacements : s'.placements = x.catalog.placements)
    (hrows : s'.nodeReplicas = x.catalog.nodeReplicas) (hwaiting : ∀ i y, (x.record c s').Waiting y i ↔ x.Waiting y i) :
    Indexed (x.record c s') := by
  have hp : ∀ i, s'.placement i = x.catalog.placement i := fun i => ClusterCatalog.placement_congr hplacements
  have hrow : ∀ n i d, s'.row n i d = x.catalog.row n i d := fun n i d => congrArg (·[nodeReplicaKey n i d]?) hrows
  have hlisted : ∀ i y, (x.record c s').Listed y i ↔ x.Listed y i := fun i y => by
    show (∃ p, s'.placement i = some p ∧ _) ↔ _
    rw [hp]
    rfl
  constructor
  · exact hb
  · exact fun key v hv => h.shaped key v ((congrArg (·[key]?) hrows).symm.trans hv)
  · exact fun i p hip r hr => (hrow _ _ _).trans (h.listed i p ((hp i).symm.trans hip) r hr)
  · exact fun i y hy => (hrow _ _ _).trans (h.waiting i y ((hwaiting i y).mp hy))
  · intro i y v hv
    rw [hlisted, hwaiting]
    exact h.sound i y v ((hrow _ _ _).symm.trans hv)
  · intro i y hy
    rw [hlisted, hwaiting] at hy
    exact h.scannable i y hy

/-- A command that leaves the replica tables and the past of the payloads alone. -/
theorem quiet (h : Indexed x) (hb : Buried (x.record c s')) (hheld : (x.record c s').held = x.held)
    (hs : s'.replicas = x.catalog.replicas) : Indexed (x.record c s') := by
  refine h.keep hb (congrArg Prod.fst hs) (congrArg (·.2.1) hs) fun i y => ?_
  show (∃ t held, s'.tombstone i = some t ∧ (x.record c s').held[i.bytes]? = some held ∧ _) ↔ _
  rw [ClusterCatalog.tombstone_congr (congrArg (·.2.2) hs), hheld]
  rfl

/-- A placement written for a payload that was never deleted: the rows it does not list are gone. -/
theorem write (h : Indexed x) (hb : Buried (x.record c s')) {p : PayloadPlacement} (hsettles : settles c = false)
    (hw : Writes x.catalog p s')
    (hgone : ∀ y v, y ∉ p.slots → s'.row y.1 p.objectId y.2 = some v → x.Listed y p.objectId → False)
    (hscan : ∀ y ∈ p.slots, Scannable y.1) : Indexed (x.record c s') := by
  obtain ⟨hheld, -, -⟩ := record_of_not_settles x s' hsettles
  have hplaced : s'.placement p.objectId = some p := (ClusterCatalog.placement_insert hw.placements).trans (if_pos rfl)
  have hp : ∀ i, i ≠ p.objectId → s'.placement i = x.catalog.placement i :=
    fun i hi => (ClusterCatalog.placement_insert hw.placements).trans (if_neg hi)
  have hwaiting : ∀ i y, (x.record c s').Waiting y i ↔ x.Waiting y i := fun i y => by
    show (∃ t held, s'.tombstone i = some t ∧ (x.record c s').held[i.bytes]? = some held ∧ _) ↔ _
    rw [ClusterCatalog.tombstone_congr hw.tombstones, hheld]
    rfl
  have hnot : ∀ y, ¬ (x.record c s').Waiting y p.objectId := fun y => waiting_ne hb hplaced
  refine ⟨hb, hw.shaped h.shaped, ?_, ?_, ?_, ?_⟩
  · intro i q hiq r hr
    by_cases hi : i = p.objectId
    · obtain rfl : p = q := Option.some.inj (hplaced.symm.trans (hi ▸ hiq))
      rw [hi]
      exact hw.listed r hr
    · exact (hw.others _ _ _ hi).trans (h.listed i q ((hp i hi).symm.trans hiq) r hr)
  · intro i y hy
    have hi : i ≠ p.objectId := fun e => hnot y (e ▸ hy)
    exact (hw.others _ _ _ hi).trans (h.waiting i y ((hwaiting i y).mp hy))
  · intro i y v hv
    by_cases hi : i = p.objectId
    · subst hi
      by_cases hy : y ∈ p.slots
      · exact .inl ⟨p, hplaced, hy⟩
      · -- an unlisted row was there before, so the placement before listed it
        rcases h.sound _ y v (hw.unlisted _ _ _ hy hv) with hl | hwait
        · exact (hgone y v hy hv hl).elim
        · exact absurd ((hwaiting _ y).mpr hwait) (hnot y)
    · rcases h.sound i y v ((hw.others _ _ _ hi).symm.trans hv) with ⟨q, hq, hy⟩ | hwait
      · exact .inl ⟨q, (hp i hi).trans hq, hy⟩
      · exact .inr ((hwaiting i y).mpr hwait)
  · rintro i y (⟨q, hq, hy⟩ | hwait)
    · by_cases hi : i = p.objectId
      · obtain rfl : p = q := Option.some.inj (hplaced.symm.trans (hi ▸ hq))
        exact hscan y hy
      · exact h.scannable i y (.inl ⟨q, (hp i hi).symm.trans hq, hy⟩)
    · exact h.scannable i y (.inr ((hwaiting i y).mp hwait))

theorem delete (h : Indexed x) {p : PayloadPlacement} {time : DateTime} (hd : Deletes x.catalog id p time s')
    (hb : Buried (x.record (.deletePlacement id time) s')) : Indexed (x.record (.deletePlacement id time) s') := by
  have hp : ∀ i, s'.placement i = if i = id then none else x.catalog.placement i :=
    fun i => ClusterCatalog.placement_erase hd.placements
  have hheld : ∀ i, (x.record (.deletePlacement id time) s').heldFor i = if i = id then some p.slots else x.heldFor i :=
    fun i => heldFor_delete hd.found
  have ht : ∀ i, s'.tombstone i = if i = id then some (.new id p.nodes time) else x.catalog.tombstone i :=
    fun i => ClusterCatalog.tombstone_insert hd.tombstones
  have hself : ∀ y, (x.record (.deletePlacement id time) s').Waiting y id ↔ y ∈ p.slots := by
    intro y
    constructor
    · rintro ⟨t, held, -, hh, hy, -⟩
      rw [hheld, if_pos rfl] at hh
      exact Option.some.inj hh ▸ hy
    · exact fun hy => ⟨_, _, (ht id).trans (if_pos rfl), (hheld id).trans (if_pos rfl), hy,
        PayloadPlacement.mem_nodes hy⟩
  have hother : ∀ i y, i ≠ id → ((x.record (.deletePlacement id time) s').Waiting y i ↔ x.Waiting y i) := by
    intro i y hi
    show (∃ t held, s'.tombstone i = some t ∧ (x.record (.deletePlacement id time) s').heldFor i = some held ∧ _) ↔ _
    rw [ht, hheld, if_neg hi, if_neg hi]
    rfl
  refine ⟨hb, hd.shaped h.shaped, ?_, ?_, ?_, ?_⟩
  · intro i q hiq r hr
    rw [show (x.record (.deletePlacement id time) s').catalog.placement i = _ from hp i] at hiq
    split_ifs at hiq with hi
    exact (hd.others _ _ _ fun e => absurd e hi).trans (h.listed i q hiq r hr)
  · intro i y hy
    by_cases hi : i = id
    · subst hi
      obtain ⟨r, hr, rfl⟩ := PayloadPlacement.mem_slots.mp ((hself y).mp hy)
      exact hd.listed r hr
    · exact (hd.others _ _ _ fun e => absurd e hi).trans (h.waiting i y ((hother i y hi).mp hy))
  · intro i y v hv
    by_cases hi : i = id
    · subst hi
      by_cases hy : y ∈ p.slots
      · exact .inr ((hself y).mpr hy)
      · rcases h.sound i y v ((hd.others _ _ _ fun _ => hy).symm.trans hv) with ⟨q, hq, hyq⟩ | hwait
        · obtain rfl : p = q := Option.some.inj (hd.found.symm.trans hq)
          exact absurd hyq hy
        · exact absurd hwait (waiting_ne h.buried hd.found)
    · rcases h.sound i y v ((hd.others _ _ _ fun e => absurd e hi).symm.trans hv) with ⟨q, hq, hy⟩ | hwait
      · exact .inl ⟨q, (hp i).trans ((if_neg hi).trans hq), hy⟩
      · exact .inr ((hother i y hi).mpr hwait)
  · rintro i y (⟨q, hq, hy⟩ | hwait)
    · rw [show (x.record (.deletePlacement id time) s').catalog.placement i = _ from hp i] at hq
      split_ifs at hq
      exact h.scannable i y (.inl ⟨q, hq, hy⟩)
    · by_cases hi : i = id
      · subst hi
        exact h.scannable i y (.inl ⟨p, hd.found, (hself y).mp hwait⟩)
      · exact h.scannable i y (.inr ((hother i y hi).mp hwait))

theorem acknowledge (h : Indexed x) {t : Tombstone} {time : DateTime} (ha : Acknowledges x.catalog id node t time s')
    (hb : Buried (x.record (.acknowledgeTombstone id node time) s')) :
    Indexed (x.record (.acknowledgeTombstone id node time) s') := by
  have hp : ∀ i, s'.placement i = x.catalog.placement i := fun i => ClusterCatalog.placement_congr ha.placements
  have ht : ∀ i, s'.tombstone i = if i = id then some (t.acknowledge node time) else x.catalog.tombstone i :=
    fun i => ClusterCatalog.tombstone_insert ha.tombstones
  have hwaiting : ∀ i y, (x.record (.acknowledgeTombstone id node time) s').Waiting y i ↔
      x.Waiting y i ∧ ¬ (y.1 = node ∧ i = id) := by
    intro i y
    show (∃ t' held, s'.tombstone i = some t' ∧ x.heldFor i = some held ∧ _) ↔ _
    rw [ht]
    by_cases hi : i = id
    · subst hi
      rw [if_pos rfl]
      constructor
      · rintro ⟨t', held, h1, h2, h3, h4⟩
        rw [← Option.some.inj h1] at h4
        obtain ⟨hmem, hne⟩ := List.mem_filter.mp h4
        exact ⟨⟨t, held, ha.found, h2, h3, hmem⟩, fun e => of_decide_eq_true hne e.1⟩
      · rintro ⟨⟨t', held, h1, h2, h3, h4⟩, hne⟩
        obtain rfl : t = t' := Option.some.inj (ha.found.symm.trans h1)
        exact ⟨_, held, rfl, h2, h3, List.mem_filter.mpr ⟨h4, decide_eq_true fun e => hne ⟨e, rfl⟩⟩⟩
    · rw [if_neg hi]
      exact ⟨fun hy => ⟨hy, fun e => hi e.2⟩, fun hy => hy.1⟩
  -- a payload with a tombstone has no placement
  have hapart : ∀ y, ¬ x.Listed y id := by
    rintro y ⟨q, hq, -⟩
    exact absurd ((h.buried.tombstone_eq_none hq).symm.trans ha.found) nofun
  refine ⟨hb, ha.shaped h.shaped, ?_, ?_, ?_, ?_⟩
  · intro i q hiq r hr
    have hold := (hp i).symm.trans hiq
    refine (ha.others _ _ _ fun e => ?_).trans (h.listed i q hold r hr)
    exact hapart r.slot ⟨q, e.2 ▸ hold, List.mem_map_of_mem hr⟩
  · intro i y hy
    obtain ⟨hwait, hne⟩ := (hwaiting i y).mp hy
    exact (ha.others _ _ _ hne).trans (h.waiting i y hwait)
  · intro i y v hv
    rcases h.sound i y v (ha.fewer _ _ _ _ hv) with ⟨q, hq, hy⟩ | hwait
    · exact .inl ⟨q, (hp i).trans hq, hy⟩
    · refine .inr ((hwaiting i y).mpr ⟨hwait, ?_⟩)
      rintro ⟨rfl, rfl⟩
      have hscan := h.scannable i y (.inr hwait)
      rw [show (x.record (.acknowledgeTombstone i y.1 time) s').catalog.row y.1 i y.2 = none from
        ha.gone hscan y.2] at hv
      cases hv
  · rintro i y (⟨q, hq, hy⟩ | hwait)
    · exact h.scannable i y (.inl ⟨q, (hp i).symm.trans hq, hy⟩)
    · exact h.scannable i y (.inr ((hwaiting i y).mp hwait).1)

theorem purge (h : Indexed x) (hfresh : x.catalog.tombstone id = none ∨ id ∈ x.finished)
    (hs : s'.footing = { x.catalog with tombstones := x.catalog.tombstones.erase id.bytes }.footing)
    (hb : Buried (x.record (.purgeTombstone id) s')) : Indexed (x.record (.purgeTombstone id) s') := by
  have ht : ∀ i, s'.tombstone i = if i = id then none else x.catalog.tombstone i :=
    fun i => ClusterCatalog.tombstone_erase (congrArg (fun f => f.1.2.2) hs)
  -- nobody waits for a tombstone that is gone or complete
  have hnobody : ∀ y, ¬ x.Waiting y id := by
    rintro y ⟨t, held, hit, -, -, hpending⟩
    rcases hfresh with hnone | hfinished
    · rw [hnone] at hit
      cases hit
    · rw [(h.buried.finished id hfinished).2 t hit] at hpending
      cases hpending
  refine h.keep hb (congrArg (·.1.1) hs) (congrArg (·.1.2.1) hs) fun i y => ?_
  by_cases hi : i = id
  · subst hi
    refine ⟨fun ⟨t, _, hit, _⟩ => ?_, fun hy => absurd hy (hnobody y)⟩
    rw [show (x.record (.purgeTombstone i) s').catalog.tombstone i = none from (ht i).trans (if_pos rfl)] at hit
    cases hit
  · show (∃ t held, s'.tombstone i = some t ∧ x.heldFor i = some held ∧ _) ↔ _
    rw [ht, if_neg hi]
    rfl

theorem step (h : Indexed x) (hcovering : x.Covering c) (hstep : x.step c = some x') : Indexed x' := by
  have hb : Buried x' := h.buried.step hcovering.1 hstep
  rcases step_cases hstep with rfl | ⟨o, s', hr, rfl⟩
  · exact h
  cases replicaEffect_of_returns h.buried.keyed hr with
  | other hc hs => exact h.quiet hb (record_of_not_settles x s' (settles_of_payload hc)).1 hs
  | @put p _ hw =>
    refine h.write hb rfl hw ?_ hcovering.2.2
    rintro y v hy - ⟨q, hq, hyq⟩
    exact hy (hcovering.2.1 p List.mem_cons_self q (Option.mem_toList.mpr hq) y hyq)
  | @revise _ id p p' _ hc hw =>
    refine h.write hb (settles_of_revised hc) hw.toWrites ?_ fun y hy => ?_
    · rintro y v hy hv ⟨q, hq, hyq⟩
      rw [hw.objectId] at hq hv
      obtain rfl : p = q := Option.some.inj (hw.found.symm.trans hq)
      rw [hw.dropped y.1 y.2 hyq hy (h.scannable id y (.inl ⟨p, hw.found, hyq⟩))] at hv
      cases hv
    · rcases hw.added y hy with hy | hy
      · exact h.scannable id y (.inl ⟨p, hw.found, hy⟩)
      · exact hcovering.2.2 y hy
  | absent hnone => exact h.quiet hb (record_of_absent x.catalog hnone).1 rfl
  | delete hd => exact h.delete hd hb
  | acknowledge ha => exact h.acknowledge ha hb
  | @purge id _ hs => exact h.purge (hcovering.1.2 id List.mem_cons_self) hs hb

/-! ### The rows and their number -/

theorem rows_iff (h : Indexed x) (key : Bytes) (v : UInt8) :
    x.catalog.nodeReplicas[key]? = some v ↔ x.Expected key v := by
  constructor
  · intro hv
    obtain ⟨n, i, d, rfl⟩ := h.shaped key v hv
    rcases h.sound i (n, d) v hv with ⟨p, hp, hy⟩ | hwait
    · obtain ⟨r, hr, hslot⟩ := PayloadPlacement.mem_slots.mp hy
      obtain ⟨rfl, rfl⟩ := Prod.mk.inj hslot
      obtain rfl : v = replicaStateCode r.state := Option.some.inj (hv.symm.trans (h.listed i p hp r hr))
      exact .listed hp hr
    · obtain rfl : v = replicaStateCode .deleting := Option.some.inj (hv.symm.trans (h.waiting i (n, d) hwait))
      exact .waiting hwait
  · rintro (⟨hp, hr⟩ | hwait)
    · exact h.listed _ _ hp _ hr
    · exact h.waiting _ _ hwait

/-- The index key of a replica. -/
def keyOf (k : Slot × ObjectId) : Bytes := nodeReplicaKey k.1.1 k.2 k.1.2

theorem keyOf_injective : Function.Injective keyOf := by
  rintro ⟨⟨n, d⟩, i⟩ ⟨⟨n', d'⟩, i'⟩ h
  obtain ⟨rfl, rfl, rfl⟩ := nodeReplicaKey_inj.mp h
  rfl

theorem exists_row_iff (h : Indexed x) (key : Bytes) :
    (∃ v, x.catalog.nodeReplicas[key]? = some v) ↔ ∃ k, (x.Listed k.1 k.2 ∨ x.Waiting k.1 k.2) ∧ keyOf k = key := by
  constructor
  · rintro ⟨v, hv⟩
    obtain ⟨n, i, d, rfl⟩ := h.shaped key v hv
    exact ⟨((n, d), i), h.sound i (n, d) v hv, rfl⟩
  · rintro ⟨⟨y, i⟩, hl | hwait, rfl⟩
    · obtain ⟨p, hp, hy⟩ := hl
      obtain ⟨r, hr, rfl⟩ := PayloadPlacement.mem_slots.mp hy
      exact ⟨_, h.listed i p hp r hr⟩
    · exact ⟨_, h.waiting i y hwait⟩

/-- A scan over a node's rows reads those of its replicas. -/
theorem inRange_keyOf (h : Indexed x) {k : Slot × ObjectId} (hk : x.Listed k.1 k.2 ∨ x.Waiting k.1 k.2) :
    InRange node.bytes (prefixSuccessor node.bytes) (keyOf k) ↔ k.1.1 = node := by
  constructor
  · intro hin
    obtain ⟨rest, hrest⟩ := prefix_of_inRange hin
    unfold keyOf nodeReplicaKey at hrest
    rw [List.append_assoc] at hrest
    exact (Id.bytes_inj.mp (List.append_inj hrest (by simp)).1).symm
  · rintro rfl
    exact inRange_nodeReplicaKey (h.scannable k.2 k.1 hk) k.2 k.1.2

/-- Rows with distinct keys are as many as the replicas they are of. -/
theorem ncard_eq_length (h : Indexed x) {on : Slot → Prop} {keep : Bytes × UInt8 → Bool}
    (hkeep : ∀ k, x.Listed k.1 k.2 ∨ x.Waiting k.1 k.2 → ∀ v, (k.1.1 = node ∧ keep (keyOf k, v) = true) ↔ on k.1) :
    (x.replicasOn on).ncard = ((x.catalog.nodeRows node).filter keep).length := by
  have hnodup : (((x.catalog.nodeRows node).filter keep).map Prod.fst).Nodup := by
    have hordered := (Table.rowsIn_ordered x.catalog.nodeReplicas node.bytes (prefixSuccessor node.bytes)).filter keep
    refine List.pairwise_map.mpr (hordered.imp fun {a b} hlt he => ?_)
    have hself : compare b.1 b.1 = .eq := Std.ReflCmp.compare_self
    rw [he, hself] at hlt
    cases hlt
  have himage : keyOf '' x.replicasOn on = ↑(((x.catalog.nodeRows node).filter keep).map Prod.fst).toFinset := by
    ext key
    rw [List.coe_toFinset, Set.mem_image, Set.mem_ofPred_eq, List.mem_map]
    constructor
    · rintro ⟨k, ⟨hk, hon⟩, rfl⟩
      obtain ⟨v, hv⟩ := (h.exists_row_iff (keyOf k)).mpr ⟨k, hk, rfl⟩
      obtain ⟨hnode, hkeeps⟩ := (hkeep k hk v).mpr hon
      exact ⟨(keyOf k, v), List.mem_filter.mpr ⟨Table.mem_rowsIn.mpr ⟨hv, (h.inRange_keyOf hk).mpr hnode⟩, hkeeps⟩, rfl⟩
    · rintro ⟨⟨_, v⟩, hmem, rfl⟩
      obtain ⟨hrow, hkeeps⟩ := List.mem_filter.mp hmem
      obtain ⟨hv, hin⟩ := Table.mem_rowsIn.mp hrow
      obtain ⟨k, hk, rfl⟩ := (h.exists_row_iff _).mp ⟨v, hv⟩
      exact ⟨k, ⟨hk, (hkeep k hk v).mp ⟨(h.inRange_keyOf hk).mp hin, hkeeps⟩⟩, rfl⟩
  rw [← Set.ncard_image_of_injective _ keyOf_injective, himage, Set.ncard_coe_finset,
    List.toFinset_card_of_nodup hnodup, List.length_map]

theorem exact (h : Indexed x) : IndexExact x where
  rows := h.rows_iff
  nodeCount node := by
    have hcard : (x.replicasOn fun y => y.1 = node).ncard = ((x.catalog.nodeRows node).filter fun _ => true).length :=
      h.ncard_eq_length fun k _ v => by simp
    rw [hcard, List.filter_true]
    exact ClusterCatalog.countRows_toNat _
  deviceCount node device := by
    refine (ClusterCatalog.countRows_toNat _).trans (congrArg (min · _) (Eq.symm ?_))
    refine h.ncard_eq_length fun k _ v => ?_
    simp only [keyOf, length_nodeReplicaKey, device_nodeReplicaKey, true_and, decide_eq_true_eq, Id.bytes_inj]
    rw [Prod.ext_iff]

end Indexed

end Chronicle

/-- In every run that brings no deleted payload back and overwrites a placement only by one that lists all
its devices, the index and its counts are exact. -/
theorem replica_index_exact (commands : List ClusterCommand) (x : Chronicle)
    (hcovering : Meets Chronicle.step Chronicle.Covering .empty commands)
    (hrun : run Chronicle.step .empty commands = some x) : x.IndexExact :=
  (run_invariant (fun _ _ _ h hc hs => h.step hc hs) commands Chronicle.Indexed.empty hcovering hrun).exact

namespace Sample

/-- A replica moves from the first node to the third, then the payload is deleted. -/
def upkeep : List ClusterCommand :=
  [.putPlacement (placement [slot 1 1, slot 2 2]),
    .upsertReplica object (.healthyOn (.ofNat 3) (.ofNat 3) 1 checksum .epoch) .epoch,
    .removeReplica object (.ofNat 1) .epoch, .deletePlacement object .epoch,
    .acknowledgeTombstone object (.ofNat 2) .epoch]

/-- A second completion of one multipart upload stores the payload on other devices. -/
def overwrite : List ClusterCommand :=
  [.putPlacement (placement [slot 1 1, slot 2 2]), .putPlacement (placement [slot 1 1, slot 3 3])]

end Sample

theorem replica_index_exact_upkeep :
    ∃ x, run Chronicle.step .empty Sample.upkeep = some x ∧ (x.catalog.nodeReplicaCount (.ofNat 2) = 0 ∧
      x.catalog.nodeReplicaCount (.ofNat 3) = 1) ∧ x.IndexExact :=
  exists_and_of (by decide +kernel) fun x hx _ => replica_index_exact Sample.upkeep x (by decide +kernel) hx

/-- The row of a device that the new placement does not list stays. -/
theorem overwritten_placement_leaves_rows :
    ∃ x, run Chronicle.step .empty Sample.overwrite = some x ∧ ¬ x.IndexExact := by
  obtain ⟨x, hx, hrow, hplacement, htombstone⟩ : ∃ x, run Chronicle.step .empty Sample.overwrite = some x ∧
      x.catalog.row (.ofNat 2) Sample.object (.ofNat 2) = some 1 ∧
        x.catalog.placement Sample.object = some (Sample.placement [Sample.slot 1 1, Sample.slot 3 3]) ∧
        x.catalog.tombstone Sample.object = none := by decide +kernel
  refine ⟨x, hx, fun h => ?_⟩
  rcases ((h.rows _ _).mp hrow).of_key with ⟨p, hp, hslot⟩ | ⟨t, held, ht, -⟩
  · obtain rfl := Option.some.inj (hplacement.symm.trans hp)
    exact absurd hslot (by decide +kernel)
  · exact absurd (htombstone.symm.trans ht) nofun

end RecordStore.Cluster

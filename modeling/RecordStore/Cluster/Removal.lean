import RecordStore.Cluster.History
import RecordStore.Cluster.Nodes

/-!
# Cluster.Removal — devices that are safe to remove and nodes that are forgotten

A device becomes safe to remove, and a node is forgotten, only when the index has no row for it.  The test
is made once.  A placement or a replica that was planned earlier and is applied afterwards is not tested
against it, so what holds is this: such devices and nodes hold nothing as long as no command lists a
replica on one of them.
-/

namespace RecordStore.Cluster

open RecordStore.Lib RecordStore.Core Tx ClusterCatalog

/-! ## How a device becomes safe to remove -/

section Devices

variable {s s' : ClusterCatalog} {o : ClusterOutcome} {c : ClusterCommand} {y : Slot}
  {state : DeviceState} {id : NodeId}

theorem deviceIs_iff :
    s.deviceIs y state = true ↔ ∃ n, s.node y.1 = some n ∧ ∃ d ∈ n.devices, d.id = y.2 ∧ d.state = state := by
  unfold ClusterCatalog.deviceIs
  rw [Option.any_eq_true]
  simp only [List.any_eq_true, Bool.and_eq_true, decide_eq_true_eq]

theorem deviceIs_congr (h : s'.nodes = s.nodes) : s'.deviceIs y state = s.deviceIs y state := by
  unfold ClusterCatalog.deviceIs ClusterCatalog.node
  rw [h]

/-- The devices a registration brings in as safe to remove. -/
def ClusterCommand.introduces : ClusterCommand → List Slot
  | registerNode r _ => (r.devices.filter (·.state = .safeToRemove)).map fun d => (r.nodeId, d.id)
  | registerDevice id d _ => if d.state = .safeToRemove then [(id, d.id)] else []
  | _ => []

/-- Where a device that is safe to remove after a command was so before, or what says that it may be. -/
def Justified (s : ClusterCatalog) (c : ClusterCommand) (y : Slot) : Prop :=
  s.deviceIs y .safeToRemove = true ∨ y ∈ c.introduces ∨ s.deviceReplicaCount y.1 y.2 = 0

/-- It is enough to look at the record that was written. -/
theorem justified_of_insert {n : NodeRecord} (h : s'.nodes = s.nodes.insert id.bytes n)
    (hdevices : ∀ d ∈ n.devices, d.state = .safeToRemove → Justified s c (id, d.id))
    (hy : s'.deviceIs y .safeToRemove = true) : Justified s c y := by
  obtain ⟨n', hn', d, hd, hid, hstate⟩ := deviceIs_iff.mp hy
  rw [node_insert h] at hn'
  split_ifs at hn' with hnode
  · obtain rfl := Option.some.inj hn'
    have hj := hdevices d hd hstate
    rwa [show y = (id, d.id) from Prod.ext hnode hid.symm]
  · exact .inl (deviceIs_iff.mpr ⟨n', hn', d, hd, hid, hstate⟩)

/-- A device that was in the record before. -/
theorem justified_of_mem {n : NodeRecord} (hn : s.node id = some n) {d : DeviceRecord} (hd : d ∈ n.devices)
    (hstate : d.state = .safeToRemove) : Justified s c (id, d.id) :=
  .inl (deviceIs_iff.mpr ⟨n, hn, d, hd, rfl, hstate⟩)

/-- A device that a registration brings in as safe to remove. -/
theorem justified_of_registration {r : NodeRegistration} {time : DateTime} {d : DeviceRecord} (hd : d ∈ r.devices)
    (hstate : d.state = .safeToRemove) : Justified s (.registerNode r time) (r.nodeId, d.id) :=
  .inr (.inl (List.mem_map.mpr ⟨d, List.mem_filter.mpr ⟨hd, decide_eq_true hstate⟩, rfl⟩))

theorem devices_transition {n : NodeRecord} {next : NodeState} {reason : Option String} {time : DateTime}
    {r : NodeRecord × Bool} (h : n.transition next reason time = .ok r) : r.1.devices = n.devices := by
  unfold NodeRecord.transition at h
  split_ifs at h
  · rw [← Except.ok.inj h]
  · rw [← Except.ok.inj h]

theorem mem_replaceF {α : Type} {p : α → Option α} {l : List α} {a : α} (h : a ∈ l.replaceF p) :
    a ∈ l ∨ ∃ b ∈ l, p b = some a := by
  induction l with
  | nil => exact .inl h
  | cons b l ih =>
    rw [List.replaceF] at h
    cases hb : p b with
    | none =>
      rw [hb] at h
      rcases List.mem_cons.mp h with rfl | h
      · exact .inl List.mem_cons_self
      · rcases ih h with h | ⟨b', hb', h⟩
        · exact .inl (List.mem_cons_of_mem _ h)
        · exact .inr ⟨b', List.mem_cons_of_mem _ hb', h⟩
    | some b' =>
      rw [hb] at h
      rcases List.mem_cons.mp h with rfl | h
      · exact .inr ⟨b, List.mem_cons_self, hb⟩
      · exact .inl (List.mem_cons_of_mem _ h)

theorem mem_replaceF_id {l : List DeviceRecord} {device : DeviceId} {moved a : DeviceRecord}
    (h : a ∈ l.replaceF fun x => if x.id = device then some moved else none) : a ∈ l ∨ a = moved := by
  rcases mem_replaceF h with h | ⟨b, -, hb⟩
  · exact .inl h
  · split_ifs at hb
    exact .inr (Option.some.inj hb).symm

theorem mem_upsertDevice {l : List DeviceRecord} {d a : DeviceRecord} (h : a ∈ upsertDevice l d) : a ∈ l ∨ a = d := by
  unfold upsertDevice at h
  rw [(List.perm_insertionSort deviceOrder _).mem_iff] at h
  split_ifs at h
  · exact mem_replaceF_id h
  · rcases List.mem_append.mp h with h | h
    · exact .inl h
    · exact .inr (List.mem_singleton.mp h)

/-- The compatibility device is active. -/
theorem mem_ensureLegacyDevice {n : NodeRecord} {d : DeviceRecord} (h : d ∈ n.ensureLegacyDevice.devices)
    (hstate : d.state = .safeToRemove) : d ∈ n.devices := by
  unfold NodeRecord.ensureLegacyDevice at h
  split_ifs at h
  · obtain rfl := List.mem_singleton.mp h
    cases hstate
  · exact h

theorem state_transition {d : DeviceRecord} {next : DeviceState} {r : DeviceRecord × Bool}
    (h : d.transition next = .ok r) : r.1.state = next ∧ r.1.id = d.id := by
  unfold DeviceRecord.transition at h
  split_ifs at h with hsame
  · rw [← Except.ok.inj h]
    exact ⟨hsame, rfl⟩
  · rw [← Except.ok.inj h]
    exact ⟨rfl, rfl⟩

/-- What a registration brings in is listed as such, and what was there was there. -/
theorem justified_refresh {r : NodeRegistration} {time : DateTime} {n : NodeRecord} (hn : s.node r.nodeId = some n)
    {d : DeviceRecord} (hd : d ∈ (n.refresh r time).devices) (hstate : d.state = .safeToRemove) :
    Justified s (.registerNode r time) (r.nodeId, d.id) := by
  change d ∈ (if r.devices.isEmpty then n.devices else r.devices) at hd
  split_ifs at hd
  · exact justified_of_mem hn hd hstate
  · exact justified_of_registration hd hstate

theorem justified_registerDevice {device : DeviceRecord} {time : DateTime} {n : NodeRecord} (hn : s.node id = some n)
    (hstate : ((n.ensureLegacyDevice.device device.id).map (·.state)).getD device.state = .safeToRemove) :
    Justified s (.registerDevice id device time) (id, device.id) := by
  -- the registered device keeps the state it had, if it was there
  cases hfound : n.ensureLegacyDevice.device device.id with
  | none =>
    rw [hfound] at hstate
    have hintroduces : (id, device.id) ∈ (ClusterCommand.registerDevice id device time).introduces := by
      rw [ClusterCommand.introduces, if_pos (show device.state = .safeToRemove from hstate)]
      exact List.mem_cons_self
    exact .inr (.inl hintroduces)
  | some existing =>
    rw [hfound] at hstate
    have hmem := List.mem_of_find?_eq_some hfound
    have hid : existing.id = device.id := by simpa using List.find?_some hfound
    have hj := justified_of_mem (c := .registerDevice id device time) hn (mem_ensureLegacyDevice hmem hstate) hstate
    rwa [hid] at hj

/-- A device that is safe to remove after a command was so before, was registered as such, or has no row. -/
theorem justified_of_returns (h : Returns (applyCommandTx c) s o s') (hy : s'.deviceIs y .safeToRemove = true) :
    Justified s c y := by
  cases nodeEffect_of_returns h with
  | same hc h => exact .inl ((deviceIs_congr h).symm.trans hy)
  | join hn h => exact justified_of_insert h (fun d hd => justified_of_registration hd) hy
  | rejoin h => exact justified_of_insert h.2 (fun d hd => justified_refresh h.1 hd) hy
  | comeBack h hstate hmoved =>
    exact justified_of_insert h.2 (fun d hd => justified_refresh h.1 (devices_transition hmoved ▸ hd)) hy
  | report h hc hid hstate hdevices =>
    exact justified_of_insert h.2 (fun d hd => justified_of_mem h.1 (hdevices ▸ hd)) hy
  | setState hmoved h =>
    refine justified_of_insert h.2 (fun d hd => justified_of_mem h.1 ?_) hy
    rw [← devices_transition hmoved]
    split_ifs at hd
    · exact hd
    · exact hd
  | registerDevice hrecorded h =>
    refine justified_of_insert h.2 (fun d hd hstate => ?_) hy
    rcases mem_upsertDevice hd with hd | rfl
    · exact justified_of_mem h.1 (mem_ensureLegacyDevice hd hstate) hstate
    · rw [hrecorded] at hstate ⊢
      exact justified_registerDevice h.1 hstate
  | setDeviceState hempty hdevice hmoved h =>
    refine justified_of_insert h.2 (fun a ha hstate => ?_) hy
    rcases mem_replaceF_id ha with ha | rfl
    · exact justified_of_mem h.1 ha hstate
    · obtain ⟨hnext, hid⟩ := state_transition hmoved
      have hid' := by simpa using List.find?_some hdevice
      refine .inr (.inr ?_)
      rw [hid, hid']
      exact hempty (hnext.symm.trans hstate)
  | unknown hn => exact .inl hy
  | forget hn hstate hempty h =>
    obtain ⟨n', hn', hd⟩ := deviceIs_iff.mp hy
    rw [node_erase _ h] at hn'
    split_ifs at hn'
    exact .inl (deviceIs_iff.mpr ⟨n', hn', hd⟩)

end Devices

/-! ## What a count of zero says -/

namespace ClusterCatalog

variable {s : ClusterCatalog} {n : NodeId} {i : ObjectId} {d : DeviceId}

theorem eq_nil_of_countRows {α : Type} {rows : List α} (h : countRows rows = 0) : rows = [] := by
  have hlength := countRows_toNat rows
  rw [h, UInt64.toNat_zero] at hlength
  exact List.length_eq_zero_iff.mp (by omega)

theorem mem_nodeRows {v : UInt8} (hscan : Scannable n) (h : s.row n i d = some v) :
    (nodeReplicaKey n i d, v) ∈ s.nodeRows n :=
  Table.mem_rowsIn.mpr ⟨h, inRange_nodeReplicaKey hscan i d⟩

theorem row_eq_none_of_nodeReplicaCount (hscan : Scannable n) (h : s.nodeReplicaCount n = 0) : s.row n i d = none := by
  refine Option.eq_none_iff_forall_not_mem.mpr fun v hv => ?_
  have hmem := mem_nodeRows hscan hv
  rw [eq_nil_of_countRows h] at hmem
  cases hmem

theorem row_eq_none_of_deviceReplicaCount (hscan : Scannable n) (h : s.deviceReplicaCount n d = 0) :
    s.row n i d = none := by
  refine Option.eq_none_iff_forall_not_mem.mpr fun v hv => ?_
  have hmem : (nodeReplicaKey n i d, v) ∈
      (s.nodeRows n).filter fun r => r.1.length = 48 ∧ (r.1.drop 32).take 16 = d.bytes :=
    List.mem_filter.mpr ⟨mem_nodeRows hscan hv,
      decide_eq_true ⟨length_nodeReplicaKey n i d, device_nodeReplicaKey n i d⟩⟩
  rw [eq_nil_of_countRows h] at hmem
  cases hmem

end ClusterCatalog

/-- A node is forgotten only when the index has no row for it. -/
theorem nodeReplicaCount_of_forgetNode {s s' : ClusterCatalog} {o : ClusterOutcome} {id : NodeId}
    (h : Returns (forgetNode id) s o s') (hsome : (s.node id).isSome) : s.nodeReplicaCount id = 0 := by
  simp only [forgetNode, returns_bind, returns_read] at h
  obtain ⟨found, _, ⟨hfound, rfl⟩, h⟩ := h
  cases found with
  | none =>
    rw [← hfound] at hsome
    cases hsome
  | some n =>
    simp only [returns_bind, returns_ensure, returns_read] at h
    obtain ⟨_, _, ⟨-, rfl⟩, _, _, ⟨rfl, rfl⟩, _, _, ⟨hcount, rfl⟩, -⟩ := h
    exact hcount

/-! ## The invariant -/

/-- The tombstone and the node of an acknowledgement. -/
def ClusterCommand.acknowledges : ClusterCommand → Option (ObjectId × NodeId)
  | acknowledgeTombstone id node _ => some (id, node)
  | _ => none

namespace Chronicle

variable {x x' : Chronicle} {c : ClusterCommand} {o : ClusterOutcome} {s' : ClusterCatalog} {id : ObjectId} {y : Slot}

/-- The device is safe to remove, or was retired as such, or its node was forgotten. -/
def Gone (x : Chronicle) (y : Slot) : Prop :=
  x.catalog.deviceIs y .safeToRemove = true ∨ y ∈ x.retired ∨ y.1 ∈ x.forgotten

instance (x : Chronicle) (y : Slot) : Decidable (x.Gone y) := inferInstanceAs (Decidable (_ ∨ _ ∨ _))

/-- No placement lists a replica on what is gone. -/
def Vacated (x : Chronicle) : Prop := ∀ id p, x.catalog.placement id = some p → ∀ y ∈ p.slots, ¬ x.Gone y

/-- No replica is listed on what is gone or on the node a scan cannot cover, no registration brings in a
device as safe to remove, and a node acknowledges a tombstone only for a payload it is not listed for. -/
def Vacating (x : Chronicle) (c : ClusterCommand) : Prop :=
  (∀ y ∈ c.lists, ¬ x.Gone y ∧ Scannable y.1) ∧ (∀ y ∈ c.introduces, x.catalog.deviceIs y .safeToRemove = true) ∧
    ∀ a ∈ c.acknowledges.toList, ∀ p ∈ (x.catalog.placement a.1).toList, a.2 ∉ p.nodes

instance (x : Chronicle) (c : ClusterCommand) : Decidable (x.Vacating c) := inferInstanceAs (Decidable (_ ∧ _ ∧ _))

/-- The invariant: beside the property itself, the index has a row for each listed replica. -/
structure Vacant (x : Chronicle) : Prop where
  keyed : x.catalog.Keyed
  covered : ∀ id p, x.catalog.placement id = some p → ∀ y ∈ p.slots, x.catalog.row y.1 id y.2 ≠ none
  scannable : ∀ id p, x.catalog.placement id = some p → ∀ y ∈ p.slots, Scannable y.1
  vacated : x.Vacated

namespace Vacant

theorem empty : Vacant .empty := by
  have hnone : ∀ id, Chronicle.empty.catalog.placement id = none := fun id => Table.lookup_empty _
  refine ⟨ClusterCatalog.keyed_empty, ?_, ?_, ?_⟩
  all_goals
    intro id p hp
    rw [hnone] at hp
    cases hp

/-- A command about a payload makes no device and no node go. -/
theorem gone_of_payload (hc : c.payload ≠ none) (hnodes : s'.nodes = x.catalog.nodes) (hy : (x.record c s').Gone y) :
    x.Gone y := by
  have hretired : y ∈ (x.record c s').retired → y ∈ x.retired := by
    cases c with
    | setDeviceState => exact absurd rfl hc
    | _ => exact fun h => (List.mem_filter.mp h).1
  have hforgotten : (x.record c s').forgotten = x.forgotten := by
    cases c with
    | forgetNode => exact absurd rfl hc
    | registerNode => exact absurd rfl hc
    | _ => rfl
  rcases hy with hy | hy | hy
  · exact .inl ((deviceIs_congr hnodes).symm.trans hy)
  · exact .inr (.inl (hretired hy))
  · exact .inr (.inr (hforgotten ▸ hy))

theorem write (h : Vacant x) {p : PayloadPlacement} (hc : c.payload ≠ none) (hw : Writes x.catalog p s')
    (hslots : ∀ y ∈ p.slots, ¬ x.Gone y ∧ Scannable y.1) : Vacant (x.record c s') := by
  have hplaced : ∀ i q, s'.placement i = some q →
      (i = p.objectId ∧ q = p) ∨ (i ≠ p.objectId ∧ x.catalog.placement i = some q) := by
    intro i q hiq
    rw [ClusterCatalog.placement_insert hw.placements] at hiq
    split_ifs at hiq with hi
    · exact .inl ⟨hi, (Option.some.inj hiq).symm⟩
    · exact .inr ⟨hi, hiq⟩
  refine ⟨h.keyed.insert hw.placements, ?_, ?_, ?_⟩
  · intro i q hiq y hy
    rcases hplaced i q hiq with ⟨rfl, rfl⟩ | ⟨hi, hold⟩
    · obtain ⟨r, hr, rfl⟩ := PayloadPlacement.mem_slots.mp hy
      have hrow := hw.listed r hr
      exact fun hnone => absurd (hrow.symm.trans hnone) nofun
    · rw [show (x.record c s').catalog.row y.1 i y.2 = _ from hw.others _ _ _ hi]
      exact h.covered i q hold y hy
  · intro i q hiq y hy
    rcases hplaced i q hiq with ⟨rfl, rfl⟩ | ⟨-, hold⟩
    · exact (hslots y hy).2
    · exact h.scannable i q hold y hy
  · intro i q hiq y hy hgone
    have hbefore := gone_of_payload hc hw.nodes hgone
    rcases hplaced i q hiq with ⟨rfl, rfl⟩ | ⟨-, hold⟩
    · exact (hslots y hy).1 hbefore
    · exact h.vacated i q hold y hy hbefore

/-- A command about a payload that adds no placement and keeps the rows of those that are left. -/
theorem shrink (h : Vacant x) (hc : c.payload ≠ none) (hkeyed : s'.Keyed) (hnodes : s'.nodes = x.catalog.nodes)
    (hplaced : ∀ i q, s'.placement i = some q → x.catalog.placement i = some q)
    (hrows : ∀ i q, s'.placement i = some q → ∀ y ∈ q.slots, s'.row y.1 i y.2 = x.catalog.row y.1 i y.2) :
    Vacant (x.record c s') where
  keyed := hkeyed
  covered i q hq y hy := hrows i q hq y hy ▸ h.covered i q (hplaced i q hq) y hy
  scannable i q hq := h.scannable i q (hplaced i q hq)
  vacated i q hq y hy hgone := h.vacated i q (hplaced i q hq) y hy (gone_of_payload hc hnodes hgone)

/-- A command about a member, or about neither. -/
theorem member (h : Vacant x) (hr : Returns (applyCommandTx c) x.catalog o s') (hc : c.payload = none)
    (hs : s'.replicas = x.catalog.replicas)
    (hintroduces : ∀ y ∈ c.introduces, x.catalog.deviceIs y .safeToRemove = true) : Vacant (x.record c s') := by
  have hp : ∀ i, s'.placement i = x.catalog.placement i := fun i =>
    ClusterCatalog.placement_congr (congrArg Prod.fst hs)
  have hrow : ∀ n i d, s'.row n i d = x.catalog.row n i d :=
    fun n i d => congrArg (fun r => r.2.1[nodeReplicaKey n i d]?) hs
  have hretired : ∀ y ∈ (x.record c s').retired, y ∈ x.retired ∨ x.catalog.deviceIs y .safeToRemove = true := by
    intro y hy
    have hy := (List.mem_filter.mp hy).1
    split at hy
    · split_ifs at hy with hsafe
      · rcases List.mem_cons.mp hy with rfl | hy
        · exact .inr hsafe
        · exact .inl hy
      · exact .inl hy
    · exact .inl hy
  have hforgotten : ∀ n ∈ (x.record c s').forgotten, n ∈ x.forgotten ∨ x.catalog.nodeReplicaCount n = 0 := by
    intro n hn
    cases c with
    | forgetNode id =>
      change n ∈ (if (x.catalog.node id).isSome then id :: x.forgotten else x.forgotten) at hn
      split_ifs at hn with hsome
      · rcases List.mem_cons.mp hn with rfl | hn
        · exact .inr (nodeReplicaCount_of_forgetNode hr hsome)
        · exact .inl hn
      · exact .inl hn
    | registerNode => exact .inl (List.mem_filter.mp hn).1
    | _ => exact .inl hn
  constructor
  · exact h.keyed.of_placements (congrArg Prod.fst hs)
  · exact fun i q hiq y hy => hrow _ _ _ ▸ h.covered i q ((hp i).symm.trans hiq) y hy
  · exact fun i q hiq => h.scannable i q ((hp i).symm.trans hiq)
  · intro i q hiq y hy hgone
    have hold := (hp i).symm.trans hiq
    have hscan := h.scannable i q hold y hy
    refine h.vacated i q hold y hy ?_
    rcases hgone with hgone | hgone | hgone
    · rcases justified_of_returns hr hgone with hsafe | hin | hcount
      · exact .inl hsafe
      · exact .inl (hintroduces y hin)
      · exact absurd (row_eq_none_of_deviceReplicaCount hscan hcount) (h.covered i q hold y hy)
    · rcases hretired y hgone with hgone | hsafe
      · exact .inr (.inl hgone)
      · exact .inl hsafe
    · rcases hforgotten y.1 hgone with hgone | hcount
      · exact .inr (.inr hgone)
      · exact absurd (row_eq_none_of_nodeReplicaCount hscan hcount) (h.covered i q hold y hy)

theorem step (h : Vacant x) (hvacating : x.Vacating c) (hstep : x.step c = some x') : Vacant x' := by
  rcases step_cases hstep with rfl | ⟨o, s', hr, rfl⟩
  · exact h
  have heffect := replicaEffect_of_returns h.keyed hr
  have hkeyed := h.keyed.step heffect
  cases heffect with
  | other hc hs => exact h.member hr hc hs hvacating.2.1
  | put hw => exact h.write nofun hw hvacating.1
  | @revise _ id p p' _ hc hw =>
    refine h.write (fun hnone => ?_) hw.toWrites fun y hy => ?_
    · rw [payload_of_revised hc] at hnone
      cases hnone
    · rcases hw.added y hy with hy | hy
      · exact ⟨h.vacated id p hw.found y hy, h.scannable id p hw.found y hy⟩
      · exact hvacating.1 y hy
  | absent _ => exact h.shrink nofun hkeyed rfl (fun _ _ hq => hq) fun _ _ _ _ _ => rfl
  | @delete id p time _ hd =>
    have hplaced : ∀ i q, s'.placement i = some q → i ≠ id ∧ x.catalog.placement i = some q := by
      intro i q hiq
      rw [ClusterCatalog.placement_erase hd.placements] at hiq
      split_ifs at hiq with hi
      exact ⟨hi, hiq⟩
    exact h.shrink nofun hkeyed hd.nodes (fun i q hiq => (hplaced i q hiq).2) fun i q hiq y _ =>
      hd.others _ _ _ fun e => absurd e (hplaced i q hiq).1
  | @acknowledge id node t time _ ha =>
    have hp : ∀ i, s'.placement i = x.catalog.placement i := fun i => ClusterCatalog.placement_congr ha.placements
    refine h.shrink nofun hkeyed ha.nodes (fun i q hiq => (hp i).symm.trans hiq) fun i q hiq y hy => ?_
    refine ha.others _ _ _ ?_
    rintro ⟨rfl, rfl⟩
    exact hvacating.2.2 (i, y.1) List.mem_cons_self q (Option.mem_toList.mpr ((hp i).symm.trans hiq))
      (PayloadPlacement.mem_nodes hy)
  | @purge id _ hs =>
    exact h.shrink nofun hkeyed (congrArg Prod.snd hs)
      (fun i q hiq => (ClusterCatalog.placement_congr (congrArg (fun f => f.1.1) hs)).symm.trans hiq)
      fun i q _ y _ => congrArg (fun f => f.1.2.1[nodeReplicaKey y.1 i y.2]?) hs

end Vacant

end Chronicle

/-- In every run in which no replica is listed on what is gone, what is gone holds nothing. -/
theorem gone_devices_hold_nothing (commands : List ClusterCommand) (x : Chronicle)
    (hvacating : Meets Chronicle.step Chronicle.Vacating .empty commands)
    (hrun : run Chronicle.step .empty commands = some x) : x.Vacated :=
  (run_invariant (fun _ _ _ h hv hs => h.step hv hs) commands Chronicle.Vacant.empty hvacating hrun).vacated

namespace Sample

/-- A cluster with one node that has one device, and a payload on that device and another. -/
def founding : List ClusterCommand :=
  [.initializeCluster ⟨.ofNat 1, 1, .epoch, 0, none, none⟩ .default,
    .registerNode ⟨.ofNat 1, "n1:7603", defaultStorageClass, [], ⟨100, 100, 0, 0⟩, [device 1 1]⟩ .epoch,
    .putPlacement (placement [slot 1 1, slot 2 2])]

/-- The payload leaves the device, which becomes safe to remove and is retired; the node is forgotten. -/
def departure : List ClusterCommand :=
  [.setDeviceState (.ofNat 1) (.ofNat 1) .draining .epoch, .removeReplica object (.ofNat 1) .epoch,
    .setDeviceState (.ofNat 1) (.ofNat 1) .safeToRemove .epoch, .setDeviceState (.ofNat 1) (.ofNat 1) .retired .epoch,
    .setNodeState (.ofNat 1) .decommissioned none .epoch, .forgetNode (.ofNat 1)]

/-- A replica that was copied to the device before it was drained. -/
def late : ClusterCommand := .upsertReplica object (.healthyOn (.ofNat 1) (.ofNat 1) 1 checksum .epoch) .epoch

end Sample

theorem gone_devices_hold_nothing_departure :
    ∃ x, run Chronicle.step .empty (Sample.founding ++ Sample.departure) = some x ∧ x.forgotten = [.ofNat 1] ∧
      x.Vacated :=
  exists_and_of (by decide +kernel) fun x hx _ => gone_devices_hold_nothing _ x (by decide +kernel) hx

/-- Each of the three ways to be gone is followed by a replica that is recorded late. -/
theorem late_replica_on_gone_device :
    (∃ x, run Chronicle.step .empty (Sample.founding ++ Sample.departure.take 3 ++ [Sample.late]) = some x ∧
      ¬ x.Vacated) ∧
      (∃ x, run Chronicle.step .empty (Sample.founding ++ Sample.departure.take 4 ++ [Sample.late]) = some x ∧
        ¬ x.Vacated) ∧
      ∃ x, run Chronicle.step .empty (Sample.founding ++ Sample.departure ++ [Sample.late]) = some x ∧ ¬ x.Vacated := by
  have hbad : ∀ commands, (∃ x, run Chronicle.step .empty commands = some x ∧ x.Gone (Sample.slot 1 1) ∧
      ∃ p, x.catalog.placement Sample.object = some p ∧ Sample.slot 1 1 ∈ p.slots) →
      ∃ x, run Chronicle.step .empty commands = some x ∧ ¬ x.Vacated := by
    rintro commands ⟨x, hx, hgone, p, hp, hslot⟩
    exact ⟨x, hx, fun h => h Sample.object p hp _ hslot hgone⟩
  exact ⟨hbad _ (by decide +kernel), hbad _ (by decide +kernel), hbad _ (by decide +kernel)⟩

end RecordStore.Cluster

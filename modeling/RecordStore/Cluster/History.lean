import RecordStore.Lib.Pool
import RecordStore.Cluster.ReplicaEffects

/-!
# Cluster.History — runs of the cluster commands

Commands are applied one after another, each in a transaction of its own, in any order.  Beside the
catalog a run keeps what the catalog itself forgets: who held a payload when it was deleted, whose
acknowledgement is still owed, which tombstones were ever complete, and which devices and nodes have left.
-/

namespace RecordStore.Cluster

open RecordStore.Lib RecordStore.Core Tx

/-- Some device of this slot's node has its identifier and the state. -/
def ClusterCatalog.deviceIs (s : ClusterCatalog) (x : Slot) (state : DeviceState) : Bool :=
  (s.node x.1).any fun n => n.devices.any fun d => d.id = x.2 && d.state = state

/-- The catalog and its past. -/
structure Chronicle where
  catalog : ClusterCatalog
  -- the devices that held the payload when its placement was last deleted
  held : Table Bytes (List Slot)
  -- the nodes among them that have not acknowledged since
  owed : Table Bytes (List NodeId)
  -- the payloads whose tombstone had no node pending at some time
  finished : List ObjectId
  -- the payloads whose tombstone was purged while a node was pending
  purgedEarly : List ObjectId
  -- the devices that went from safe-to-remove to retired and still are
  retired : List Slot
  -- the nodes that were forgotten and have not registered again
  forgotten : List NodeId

namespace Chronicle

def empty : Chronicle := ⟨.empty, ∅, ∅, [], [], [], []⟩

variable (x : Chronicle) (c : ClusterCommand) (s' : ClusterCatalog)

/-- Who held the payload when it was last deleted, if it was. -/
def heldFor (id : ObjectId) : Option (List Slot) := x.held[id.bytes]?

def heldAfter : Table Bytes (List Slot) :=
  match c with
  | .deletePlacement id _ => ((x.catalog.placement id).map fun p => x.held.insert id.bytes p.slots).getD x.held
  | _ => x.held

/-- The nodes whose acknowledgement for a payload is owed. -/
def owedFor (id : ObjectId) : List NodeId := (x.owed[id.bytes]?).getD []

def owedAfter : Table Bytes (List NodeId) :=
  match c with
  | .deletePlacement id _ => ((x.catalog.placement id).map fun p => x.owed.insert id.bytes p.nodes).getD x.owed
  | .acknowledgeTombstone id node _ => x.owed.insert id.bytes ((x.owedFor id).filter (· ≠ node))
  | _ => x.owed

/-- A tombstone with nobody pending. -/
def complete (s : ClusterCatalog) (id : ObjectId) : Bool := (s.tombstone id).any fun t => t.pendingNodes.isEmpty

def finishedAfter : List ObjectId :=
  match c.payload with
  | some id => if complete s' id then id :: x.finished else x.finished
  | none => x.finished

def purgedEarlyAfter : List ObjectId :=
  match c with
  | .purgeTombstone id =>
    if (x.catalog.tombstone id).isSome ∧ ¬ complete x.catalog id then id :: x.purgedEarly else x.purgedEarly
  | _ => x.purgedEarly

def retiredAfter : List Slot :=
  let retired := match c with
    | .setDeviceState node device .retired _ =>
      if x.catalog.deviceIs (node, device) .safeToRemove then (node, device) :: x.retired else x.retired
    | _ => x.retired
  retired.filter fun slot => s'.deviceIs slot .retired

def forgottenAfter : List NodeId :=
  match c with
  | .forgetNode id => if (x.catalog.node id).isSome then id :: x.forgotten else x.forgotten
  | .registerNode r _ => x.forgotten.filter (· ≠ r.nodeId)
  | _ => x.forgotten

/-- The past after a command that left the catalog `s'`. -/
def record : Chronicle where
  catalog := s'
  held := x.heldAfter c
  owed := x.owedAfter c
  finished := x.finishedAfter c s'
  purgedEarly := x.purgedEarlyAfter c
  retired := x.retiredAfter c s'
  forgotten := x.forgottenAfter c

/-- One command.  A refused one changes nothing. -/
def step : Option Chronicle :=
  match commit (applyCommandTx c) x.catalog with
  | (.ok _, s') => some (x.record c s')
  | (.error _, _) => some x

variable {x c s'} {x' : Chronicle}

theorem step_cases (h : x.step c = some x') :
    x' = x ∨ ∃ o s', Returns (applyCommandTx c) x.catalog o s' ∧ x' = x.record c s' := by
  unfold step at h
  rcases returns_or_fails (applyCommandTx c) x.catalog with ⟨o, s', hr⟩ | ⟨e, hf⟩
  · rw [commit_of_returns hr] at h
    exact .inr ⟨o, s', hr, (Option.some.inj h).symm⟩
  · rw [commit_of_fails hf] at h
    exact .inl (Option.some.inj h).symm

section Ghosts

variable {id i : ObjectId} {p : PayloadPlacement} {time : DateTime} {node : NodeId}

theorem heldFor_delete (h : x.catalog.placement id = some p) :
    (x.record (.deletePlacement id time) s').heldFor i = if i = id then some p.slots else x.heldFor i := by
  show (x.heldAfter (.deletePlacement id time))[i.bytes]? = _
  simp only [heldAfter, h, Option.map_some, Option.getD_some, Table.lookup_insert, Id.bytes_inj]
  rfl

theorem owedFor_delete (h : x.catalog.placement id = some p) :
    (x.record (.deletePlacement id time) s').owedFor i = if i = id then p.nodes else x.owedFor i := by
  show ((x.owedAfter (.deletePlacement id time))[i.bytes]?).getD [] = _
  simp only [owedAfter, h, Option.map_some, Option.getD_some, Table.lookup_insert, Id.bytes_inj]
  split_ifs <;> rfl

theorem owedFor_acknowledge :
    (x.record (.acknowledgeTombstone id node time) s').owedFor i =
      if i = id then (x.owedFor id).filter (· ≠ node) else x.owedFor i := by
  show ((x.owed.insert id.bytes ((x.owedFor id).filter (· ≠ node)))[i.bytes]?).getD [] = _
  rw [Table.lookup_insert]
  simp only [Id.bytes_inj]
  split_ifs <;> rfl

theorem record_of_absent (s' : ClusterCatalog) (h : x.catalog.placement id = none) :
    (x.record (.deletePlacement id time) s').held = x.held ∧
    (x.record (.deletePlacement id time) s').owed = x.owed := by
  constructor
  · show x.heldAfter (.deletePlacement id time) = x.held
    simp only [heldAfter, h, Option.map_none, Option.getD_none]
  · show x.owedAfter (.deletePlacement id time) = x.owed
    simp only [owedAfter, h, Option.map_none, Option.getD_none]

/-- What was complete at some time was so before, or is now. -/
theorem of_mem_finished (h : i ∈ (x.record c s').finished) : i ∈ x.finished ∨ complete s' i = true := by
  change i ∈ x.finishedAfter c s' at h
  unfold finishedAfter at h
  split at h
  · split_ifs at h with hcomplete
    · rcases List.mem_cons.mp h with rfl | h
      · exact .inr hcomplete
      · exact .inl h
    · exact .inl h
  · exact .inl h

theorem complete_iff {s : ClusterCatalog} :
    complete s id = true ↔ ∃ t, s.tombstone id = some t ∧ t.pendingNodes = [] := by
  unfold complete
  rw [Option.any_eq_true]
  simp only [List.isEmpty_iff]

end Ghosts

/-- Whether a command may change what is owed. -/
def settles : ClusterCommand → Bool
  | .deletePlacement _ _ | .acknowledgeTombstone _ _ _ | .purgeTombstone _ => true
  | _ => false

theorem record_of_not_settles (x : Chronicle) (s' : ClusterCatalog) (h : settles c = false) :
    (x.record c s').held = x.held ∧ (x.record c s').owed = x.owed ∧ (x.record c s').purgedEarly = x.purgedEarly := by
  cases c with
  | deletePlacement | acknowledgeTombstone | purgeTombstone => cases h
  | _ => exact ⟨rfl, rfl, rfl⟩

theorem payload_of_revised {id : ObjectId} (h : c.revised = some id) : c.payload = some id := by
  cases c with
  | upsertReplica | setReplicaState | setReplicaStateOnDevice | removeReplica | removeReplicaFromDevice
  | setDesiredReplicas => exact h
  | _ => cases h

theorem settles_of_revised {id : ObjectId} (h : c.revised = some id) : settles c = false := by
  cases c with
  | deletePlacement | acknowledgeTombstone | purgeTombstone => cases h
  | _ => rfl

theorem settles_of_payload (h : c.payload = none) : settles c = false := by
  cases c with
  | deletePlacement | acknowledgeTombstone | purgeTombstone => cases h
  | _ => rfl

end Chronicle

/-! ## Placements under their own keys -/

namespace ClusterCatalog

variable {s s' : ClusterCatalog} {c : ClusterCommand} {id i : ObjectId}

theorem placement_insert {p : PayloadPlacement} (h : s'.placements = s.placements.insert id.bytes p) :
    s'.placement i = if i = id then some p else s.placement i := by
  unfold placement
  rw [h, Table.lookup_insert]
  simp only [Id.bytes_inj]

theorem placement_erase (h : s'.placements = s.placements.erase id.bytes) :
    s'.placement i = if i = id then none else s.placement i := by
  unfold placement
  rw [h, Table.lookup_erase]
  simp only [Id.bytes_inj]

theorem tombstone_insert {t : Tombstone} (h : s'.tombstones = s.tombstones.insert id.bytes t) :
    s'.tombstone i = if i = id then some t else s.tombstone i := by
  unfold tombstone
  rw [h, Table.lookup_insert]
  simp only [Id.bytes_inj]

theorem tombstone_erase (h : s'.tombstones = s.tombstones.erase id.bytes) :
    s'.tombstone i = if i = id then none else s.tombstone i := by
  unfold tombstone
  rw [h, Table.lookup_erase]
  simp only [Id.bytes_inj]

theorem placement_congr (h : s'.placements = s.placements) : s'.placement i = s.placement i := by
  unfold placement
  rw [h]

theorem tombstone_congr (h : s'.tombstones = s.tombstones) : s'.tombstone i = s.tombstone i := by
  unfold tombstone
  rw [h]

theorem Keyed.insert (hk : s.Keyed) {p : PayloadPlacement}
    (h : s'.placements = s.placements.insert p.objectId.bytes p) :
    s'.Keyed := by
  intro key q hq
  rw [h] at hq
  rcases Table.of_lookup_insert hq with ⟨hkey, rfl⟩ | ⟨-, hq⟩
  · exact hkey.symm
  · exact hk key q hq

theorem Keyed.of_placements (hk : s.Keyed) (h : s'.placements = s.placements) : s'.Keyed := by
  intro key q hq
  rw [h] at hq
  exact hk key q hq

/-- Every command keeps each placement under its key. -/
theorem Keyed.step (hk : s.Keyed) (h : ReplicaEffect s c s') : s'.Keyed := by
  cases h with
  | other hc h => exact hk.of_placements (congrArg Prod.fst h)
  | put h => exact hk.insert h.placements
  | revise hc h => exact hk.insert h.placements
  | absent h => exact hk
  | delete h =>
    intro key q hq
    rw [h.placements] at hq
    exact hk key q (Table.of_lookup_erase hq).2
  | acknowledge h => exact hk.of_placements h.placements
  | purge h => exact hk.of_placements (congrArg (fun f => f.1.1) h)

theorem Keyed.next (hk : s.Keyed) : (s.next c).Keyed :=
  commit_preserves hk fun _ _ hr => hk.step (replicaEffect_of_returns hk hr)

theorem keyed_empty : empty.Keyed := by
  intro key q hq
  rw [show empty.placements[key]? = none from Table.lookup_empty _] at hq
  cases hq

/-- The catalog after a list of commands.  A refused one changes nothing. -/
def after (commands : List ClusterCommand) : ClusterCatalog :=
  commands.foldl (fun s c => (commit (applyCommandTx c) s).2) empty

theorem keyed_after (commands : List ClusterCommand) : (after commands).Keyed := by
  have hfold : ∀ s : ClusterCatalog, s.Keyed →
    (commands.foldl (fun s c => (commit (applyCommandTx c) s).2) s).Keyed := by
    induction commands with
    | nil => exact fun s hs => hs
    | cons c commands ih =>
      intro s hs
      exact ih _ hs.next
  exact hfold empty keyed_empty

end ClusterCatalog

/-! ## A payload for the concrete runs -/

namespace Sample

def checksum : Checksum := ⟨.sha256, List.replicate 32 1, by decide⟩

def object : ObjectId := .ofNat 7

def slot (node device : Nat) : Slot := (.ofNat node, .ofNat device)

def device (node device : Nat) : DeviceRecord :=
  { DeviceRecord.legacyDirectory (.ofNat node) defaultStorageClass ⟨100, 100, 0, 0, 100⟩ with id := .ofNat device }

/-- One healthy replica on each device. -/
def placement (slots : List Slot) : PayloadPlacement :=
  .new object 1 checksum 2 defaultStorageClass (slots.map fun x => .healthyOn x.1 x.2 1 checksum .epoch) .epoch

end Sample

end RecordStore.Cluster

import RecordStore.Cluster.ReplicaEffects

/-!
# Cluster.Nodes — what a command does to the members

`NodeEffect` lists the ways in which a command that succeeds changes the table of nodes.  Whatever is to
be known about the state of a node or of its devices over a run follows from its cases.
-/

namespace RecordStore.Cluster

open RecordStore.Lib RecordStore.Core Tx ClusterCatalog

variable {s s' : ClusterCatalog} {o : ClusterOutcome} {c : ClusterCommand} {id : NodeId}

/-! ## Rows -/

theorem node_insert {n : NodeRecord} {i : NodeId} (h : s'.nodes = s.nodes.insert id.bytes n) :
    s'.node i = if i = id then some n else s.node i := by
  unfold ClusterCatalog.node
  rw [h, Table.lookup_insert]
  simp only [Id.bytes_inj]

theorem node_erase (id : NodeId) {i : NodeId} (h : s'.nodes = s.nodes.erase id.bytes) :
    s'.node i = if i = id then none else s.node i := by
  unfold ClusterCatalog.node
  rw [h, Table.lookup_erase]
  simp only [Id.bytes_inj]

theorem node_congr {i : NodeId} (h : s'.nodes = s.nodes) : s'.node i = s.node i := by
  unfold ClusterCatalog.node
  rw [h]

theorem returns_requireNode {n : NodeRecord} : Returns (requireNode id) s n s' ↔ s.node id = some n ∧ s' = s := by
  simp only [requireNode, returns_bind, returns_read, returns_okOr]
  constructor
  · rintro ⟨_, s₁, ⟨rfl, rfl⟩, h, rfl⟩
    exact ⟨h, rfl⟩
  · rintro ⟨h, rfl⟩
    exact ⟨_, s', ⟨rfl, rfl⟩, h, rfl⟩

theorem nodes_recount {b : Bool} {u : Unit} {s₁ : ClusterCatalog}
    (h : Returns (when b do
      modify fun s : ClusterCatalog => s.advanceClusterMapEpoch
      recountDurability) s₁ u s') : s'.nodes = s₁.nodes := by
  have hrecount : Keeps ClusterCatalog.nodes recountDurability := by
    refine keeps_bind (keeps_read _) fun identity => ?_
    cases identity with
    | none => exact keeps_pure _
    | some identity =>
      exact keeps_bind (keeps_bind (keeps_read _) fun _ => keeps_okOr _ _) fun _ => keeps_bind (keeps_read _) fun _ =>
        keeps_bind (keeps_read _) fun _ => keeps_modify fun _ => rfl
  have hkeeps : Keeps ClusterCatalog.nodes (when b do
      modify fun s : ClusterCatalog => s.advanceClusterMapEpoch
      recountDurability) := keeps_when (keeps_bind (keeps_modify fun _ => rfl) fun _ => hrecount)
  exact hkeeps h

/-! ## The effect of a command -/

/-- A node in one of these states has to reconcile its replicas when it returns. -/
def NodeState.returning (state : NodeState) : Prop := state = .offline ∨ state = .unreachable ∨ state = .suspect

/-- The record `n` of the node `id` was replaced by `n'`. -/
def Rewrites (s : ClusterCatalog) (id : NodeId) (n n' : NodeRecord) (s' : ClusterCatalog) : Prop :=
  s.node id = some n ∧ s'.nodes = s.nodes.insert id.bytes n'

/-- The node a heartbeat, a descriptor or a vote is about. -/
def ClusterCommand.reports : ClusterCommand → Option NodeId
  | heartbeat id _ _ | updateNodeDescriptor id _ _ _ _ | setNodeMetadataVoter id _ _ => some id
  | _ => none

/-- What a command does to the table of nodes. -/
inductive NodeEffect (s : ClusterCatalog) : ClusterCommand → ClusterCatalog → Prop
  | same {c : ClusterCommand} {s' : ClusterCatalog} (hc : c.member = none) (h : s'.nodes = s.nodes) : NodeEffect s c s'
  | join {r : NodeRegistration} {time : DateTime} {raftId : UInt64} {voter : Bool} {s' : ClusterCatalog}
      (hn : s.node r.nodeId = none) (h : s'.nodes = s.nodes.insert r.nodeId.bytes (.joining r raftId voter time)) :
      NodeEffect s (.registerNode r time) s'
  | rejoin {r : NodeRegistration} {time : DateTime} {n : NodeRecord} {s' : ClusterCatalog}
      (h : Rewrites s r.nodeId n (n.refresh r time) s') (hstate : ¬ n.state.returning) :
      NodeEffect s (.registerNode r time) s'
  | comeBack {r : NodeRegistration} {time : DateTime} {n moved : NodeRecord} {changed : Bool} {s' : ClusterCatalog}
      (h : Rewrites s r.nodeId n moved s') (hstate : n.state.returning)
      (hmoved : (n.refresh r time).transition .joining (some "node restarted") time = .ok (moved, changed)) :
      NodeEffect s (.registerNode r time) s'
  | report {c : ClusterCommand} {n n' : NodeRecord} {id : NodeId} {s' : ClusterCatalog} (h : Rewrites s id n n' s')
      (hc : c.reports = some id) (hid : n'.nodeId = n.nodeId ∧ n'.raftId = n.raftId) (hstate : n'.state = n.state)
      (hdevices : n'.devices = n.devices) : NodeEffect s c s'
  | setState {id : NodeId} {state : NodeState} {reason : Option String} {time : DateTime} {n moved : NodeRecord}
      {changed : Bool} {s' : ClusterCatalog} (hmoved : n.transition state reason time = .ok (moved, changed))
      (h : Rewrites s id n (if state = .decommissioned then { moved with metadataVoter := false } else moved) s') :
      NodeEffect s (.setNodeState id state reason time) s'
  | registerDevice {id : NodeId} {device recorded : DeviceRecord} {time : DateTime} {n : NodeRecord}
      {s' : ClusterCatalog} (hrecorded : recorded =
        { device with state := ((n.ensureLegacyDevice.device device.id).map (·.state)).getD device.state })
      (h : Rewrites s id n
        { n.ensureLegacyDevice with
          devices := upsertDevice n.ensureLegacyDevice.devices recorded
          capacity := .fromDevices (upsertDevice n.ensureLegacyDevice.devices recorded) } s') :
      NodeEffect s (.registerDevice id device time) s'
  | setDeviceState {id : NodeId} {deviceId : DeviceId} {state : DeviceState} {time : DateTime} {n : NodeRecord}
      {device moved : DeviceRecord} {changed : Bool} {s' : ClusterCatalog}
      (hempty : state = .safeToRemove → s.deviceReplicaCount id deviceId = 0)
      (hdevice : n.device deviceId = some device)
      (hmoved : device.transition state = .ok (moved, changed))
      (h : Rewrites s id n
        { n with devices := n.devices.replaceF fun x => if x.id = deviceId then some moved else none } s') :
      NodeEffect s (.setDeviceState id deviceId state time) s'
  | unknown {id : NodeId} (hn : s.node id = none) : NodeEffect s (.forgetNode id) s
  | forget {id : NodeId} {n : NodeRecord} {s' : ClusterCatalog} (hn : s.node id = some n)
      (hstate : n.state = .decommissioned) (hempty : s.nodeReplicaCount id = 0)
      (h : s'.nodes = s.nodes.erase id.bytes) :
      NodeEffect s (.forgetNode id) s'

theorem nodeEffect_registerNode {r : NodeRegistration} {time : DateTime} (h : Returns (registerNode r time) s o s') :
    NodeEffect s (.registerNode r time) s' := by
  simp only [registerNode, returns_bind, returns_read] at h
  obtain ⟨existing, _, ⟨hexisting, rfl⟩, h⟩ := h
  cases existing with
  | none =>
    simp only [returns_bind, returns_read, returns_modify, requireConfig, returns_okOr, returns_pure] at h
    obtain ⟨_, _, ⟨rfl, rfl⟩, _, _, rfl, _, _, ⟨rfl, rfl⟩, config, _, ⟨_, _, ⟨rfl, rfl⟩, -, rfl⟩, _, _,
      rfl, _, _, rfl, -, rfl⟩ := h
    exact .join hexisting.symm rfl
  | some existing =>
    simp only [returns_ite, returns_bind, returns_map, returns_ofExcept, returns_modify, returns_pure] at h
    obtain ⟨hret, _, _, ⟨moved, rfl, hmoved, rfl⟩, _, _, rfl, -, rfl⟩ | ⟨hret, _, _, ⟨rfl, rfl⟩, _, _, rfl, -, rfl⟩ := h
    · exact .comeBack ⟨hexisting.symm, rfl⟩ hret hmoved
    · exact .rejoin ⟨hexisting.symm, rfl⟩ hret

theorem rewrites_of_updateNode {update : NodeRecord → NodeRecord} {n : NodeRecord}
    (h : Returns (updateNode id fun n => return update n) s n s') : ∃ n, Rewrites s id n (update n) s' := by
  simp only [updateNode, returns_bind, returns_requireNode, returns_modify, returns_pure] at h
  obtain ⟨n, _, ⟨hn, rfl⟩, _, _, ⟨rfl, rfl⟩, _, _, rfl, -, rfl⟩ := h
  exact ⟨n, hn, rfl⟩

theorem rewrites_of_report {update : NodeRecord → NodeRecord}
    (h : Returns (updateNode id (fun n => return update n) >>= fun n => return .node n) s o s') :
    ∃ n, Rewrites s id n (update n) s' := by
  obtain ⟨n, s₁, hupdate, h⟩ := returns_bind.mp h
  obtain ⟨-, rfl⟩ := returns_pure.mp h
  exact rewrites_of_updateNode hupdate

theorem returns_forgetNode (h : Returns (applyCommandTx (.forgetNode id)) s o s') :
    (s.node id = none ∧ s' = s) ∨ ∃ n, s.node id = some n ∧ n.state = .decommissioned ∧ s.nodeReplicaCount id = 0 ∧
      s' = ({ s with
        nodes := s.nodes.erase id.bytes
        nodeByMember := s.nodeByMember.erase (beBytes 8 n.raftId.toNat)
        nodeCredentials := s.nodeCredentials.erase id.bytes } : ClusterCatalog).advanceClusterMapEpoch := by
  simp only [applyCommandTx, forgetNode, returns_bind, returns_read] at h
  obtain ⟨found, _, ⟨hfound, rfl⟩, h⟩ := h
  cases found with
  | none => exact .inl ⟨hfound.symm, (returns_pure.mp h).2⟩
  | some n =>
    simp only [returns_bind, returns_ensure, returns_read, returns_modify, returns_pure] at h
    obtain ⟨_, _, ⟨hstate, rfl⟩, _, _, ⟨rfl, rfl⟩, _, _, ⟨hempty, rfl⟩, _, _, rfl, _, _, rfl, -, rfl⟩ := h
    exact .inr ⟨n, hfound.symm, hstate, hempty, rfl⟩

theorem nodeEffect_of_returns (h : Returns (applyCommandTx c) s o s') : NodeEffect s c s' := by
  cases c with
  | registerNode r time => exact nodeEffect_registerNode h
  | heartbeat id capacity time | setNodeMetadataVoter id voter time =>
    obtain ⟨n, hn⟩ := rewrites_of_report h
    exact .report hn rfl ⟨rfl, rfl⟩ rfl rfl
  | updateNodeDescriptor id rpcAddress storageClass failureDomain time =>
    obtain ⟨n, s₁, hupdate, h⟩ := returns_bind.mp h
    simp only [returns_bind, returns_modify, returns_pure] at h
    obtain ⟨_, _, rfl, -, rfl⟩ := h
    obtain ⟨n, hn, hs⟩ := rewrites_of_updateNode hupdate
    exact .report ⟨hn, hs⟩ rfl ⟨rfl, rfl⟩ rfl rfl
  | setNodeState id state reason time =>
    simp only [applyCommandTx, setNodeState, returns_bind, returns_requireNode, returns_ofExcept, returns_modify,
      returns_pure] at h
    obtain ⟨n, _, ⟨hn, rfl⟩, moved, _, ⟨hmoved, rfl⟩, _, _, rfl, _, _, hrecount, -, rfl⟩ := h
    exact .setState hmoved ⟨hn, nodes_recount hrecount⟩
  | registerDevice id device time =>
    simp only [applyCommandTx, registerDevice, returns_bind, returns_requireNode, returns_ensure, returns_ofExcept,
      returns_modify, returns_pure] at h
    obtain ⟨n, _, ⟨hn, rfl⟩, _, _, ⟨-, rfl⟩, _, _, ⟨-, rfl⟩, _, _, rfl, -, rfl⟩ := h
    exact .registerDevice rfl ⟨hn, rfl⟩
  | setDeviceState id device state time =>
    simp only [applyCommandTx, setDeviceState, returns_bind, returns_requireNode, returns_read, returns_ensure,
      returns_okOr, returns_ofExcept, returns_modify, returns_pure] at h
    obtain ⟨n, _, ⟨hn, rfl⟩, _, _, ⟨rfl, rfl⟩, _, _, ⟨hcount, rfl⟩, d, _, ⟨hd, rfl⟩, moved, _,
      ⟨hmoved, rfl⟩, _, _, rfl, _, _, hrecount, -, rfl⟩ := h
    exact .setDeviceState hcount hd hmoved ⟨hn, nodes_recount hrecount⟩
  | forgetNode id =>
    rcases returns_forgetNode h with ⟨hn, rfl⟩ | ⟨n, hn, hstate, hempty, rfl⟩
    · exact .unknown hn
    · exact .forget hn hstate hempty rfl
  | _ => exact .same rfl (nodes_of_returns h rfl)

/-! ## Keys -/

/-- Every node is stored under its own identifier. -/
def ClusterCatalog.Named (s : ClusterCatalog) : Prop := ∀ (k : Bytes) (n : NodeRecord), s.nodes[k]? = some n →
    k = n.nodeId.bytes

theorem named_insert {n : NodeRecord} (hs : s.Named) (h : s'.nodes = s.nodes.insert id.bytes n) (hid : n.nodeId = id) :
    s'.Named := by
  intro k m hm
  rw [h] at hm
  rcases Table.of_lookup_insert hm with ⟨hk, rfl⟩ | ⟨-, hm⟩
  · rw [hk, hid]
  · exact hs k m hm

theorem nodeId_of_named {n : NodeRecord} (hs : s.Named) (h : s.node id = some n) : n.nodeId = id :=
  (Id.bytes_inj.mp (hs _ _ h)).symm

theorem named_rewrites {n n' : NodeRecord} (hs : s.Named) (h : Rewrites s id n n' s') (hid : n'.nodeId = n.nodeId) :
    s'.Named := named_insert hs h.2 (hid.trans (nodeId_of_named hs h.1))

theorem nodeId_transition {n moved : NodeRecord} {state : NodeState} {reason : Option String} {time : DateTime}
    {changed : Bool} (h : n.transition state reason time = .ok (moved, changed)) :
    moved.nodeId = n.nodeId ∧ moved.raftId = n.raftId := by
  unfold NodeRecord.transition at h
  split_ifs at h
  all_goals
    cases h
    exact ⟨rfl, rfl⟩

theorem nodeId_ensureLegacyDevice (n : NodeRecord) :
    n.ensureLegacyDevice.nodeId = n.nodeId ∧ n.ensureLegacyDevice.raftId = n.raftId := by
  unfold NodeRecord.ensureLegacyDevice
  split_ifs <;> exact ⟨rfl, rfl⟩

theorem NodeEffect.named (h : NodeEffect s c s') (hs : s.Named) : s'.Named := by
  cases h with
  | same hc h =>
    intro k n hn
    rw [h] at hn
    exact hs k n hn
  | join hn h => exact named_insert hs h rfl
  | rejoin h hstate => exact named_rewrites hs h rfl
  | comeBack h hstate hmoved =>
    have hid := nodeId_transition hmoved
    exact named_rewrites hs h hid.1
  | report h hc hid hstate hdevices => exact named_rewrites hs h hid.1
  | setState hmoved h =>
    have hid := nodeId_transition hmoved
    refine named_rewrites hs h ?_
    split_ifs
    · exact hid.1
    · exact hid.1
  | registerDevice hrecorded h => exact named_rewrites hs h (nodeId_ensureLegacyDevice _).1
  | setDeviceState hempty hdevice hmoved h => exact named_rewrites hs h rfl
  | unknown hn => exact hs
  | forget hn hstate hempty h =>
    intro k n hk
    rw [h] at hk
    exact hs k n (Table.of_lookup_erase hk).2

end RecordStore.Cluster

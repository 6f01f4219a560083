import RecordStore.Cluster.Nodes
import RecordStore.Cluster.Snapshot

/-!
# Cluster.Numbering — the epoch of the map and the numbers of the members

Two counters only go up.  One numbers the placement map: a command that changes what placement reads moves it on.  The
other numbers the members of the metadata group: a node that was not there takes the next number.  Both stop at
`u64::MAX`.
-/

namespace RecordStore.Cluster

open RecordStore.Lib RecordStore.Core Tx ClusterCatalog

variable {s s' : ClusterCatalog} {o : ClusterOutcome} {c : ClusterCommand} {id : NodeId}

/-! ## Initialization and members -/

/-- A cluster is initialized once. -/
theorem initializeCluster_again {identity : ClusterIdentity} {config : ClusterConfig} (hs : s.identity.isSome)
    (h : Returns (applyCommandTx (.initializeCluster identity config)) s o s') : s' = s := by
  simp only [applyCommandTx, initializeCluster, returns_bind, returns_refuse, returns_read] at h
  obtain ⟨_, _, ⟨-, rfl⟩, found, _, ⟨rfl, rfl⟩, h⟩ := h
  obtain ⟨existing, hexisting⟩ := Option.isSome_iff_exists.mp hs
  simp only [hexisting, returns_ite, returns_pure, returns_throw, and_false, or_false] at h
  exact h.2.2

/-- The catalog with a member it did not have. -/
def ClusterCatalog.enroll (s : ClusterCatalog) (n : NodeRecord) : ClusterCatalog :=
  let s := ((s.setCounter "next_member_id" (saturatingAdd n.raftId 1)).putNode n.nodeId n).advanceClusterMapEpoch
  { s with nodeByMember := s.nodeByMember.insert (beBytes 8 n.raftId.toNat) n.nodeId.bytes }

theorem returns_registerNode_new {r : NodeRegistration} {time : DateTime} (hn : s.node r.nodeId = none) :
    Returns (registerNode r time) s o s' ↔ ∃ config voter n, s.config = some config ∧
      n = NodeRecord.joining r (max s.nextMember 1) voter time ∧
      voter = decide (s.countVoters < config.metadataVoterTarget.toUInt32) ∧ s' = s.enroll n ∧
      o = .registration n n.raftId true := by
  simp only [registerNode, returns_bind, returns_read, hn]
  constructor
  · rintro ⟨_, _, ⟨rfl, rfl⟩, h⟩
    simp only [returns_bind, returns_read, returns_modify, requireConfig, returns_okOr, returns_pure] at h
    obtain ⟨_, _, ⟨rfl, rfl⟩, _, _, rfl, _, _, ⟨rfl, rfl⟩, config, _, ⟨_, _, ⟨rfl, rfl⟩, hconfig, rfl⟩, _, _, rfl, _, _,
      rfl, rfl, rfl⟩ := h
    exact ⟨config, _, _, hconfig, rfl, rfl, rfl, rfl⟩
  · rintro ⟨config, voter, n, hconfig, rfl, rfl, rfl, rfl⟩
    refine ⟨_, s, ⟨rfl, rfl⟩, ?_⟩
    simp only [returns_bind, returns_read, returns_modify, requireConfig, returns_okOr, returns_pure]
    exact ⟨_, _, ⟨rfl, rfl⟩, (), _, rfl, _, _, ⟨rfl, rfl⟩, config, _, ⟨_, _, ⟨rfl, rfl⟩, hconfig, rfl⟩,
      (), _, rfl, (), _, rfl, rfl, rfl⟩

/-- A node that registers again keeps its number. -/
theorem returns_registerNode_known {r : NodeRegistration} {time : DateTime} {n : NodeRecord}
    (hn : s.node r.nodeId = some n) (h : Returns (registerNode r time) s o s') : ∃ n', n'.raftId = n.raftId ∧
      s' = (s.putNode r.nodeId n').advanceClusterMapEpoch ∧ o = .registration n' n'.raftId false := by
  simp only [registerNode, returns_bind, returns_read, hn] at h
  obtain ⟨_, _, ⟨rfl, rfl⟩, h⟩ := h
  simp only [returns_ite, returns_bind, returns_map, returns_ofExcept, returns_modify, returns_pure] at h
  obtain ⟨-, _, _, ⟨moved, rfl, hmoved, rfl⟩, _, _, rfl, rfl, rfl⟩ | ⟨-, _, _, ⟨rfl, rfl⟩, _, _, rfl, rfl, rfl⟩ := h
  · exact ⟨moved.1, (nodeId_transition hmoved).2, rfl, rfl⟩
  · exact ⟨n.refresh r time, rfl, rfl, rfl⟩

/-! ## The placement map -/

/-- What placement reads of a node, the free and used bytes apart. -/
structure NodeView where
  nodeId : NodeId
  state : NodeState
  storageClass : StorageClass
  failureDomain : FailureDomain
  devices : List DeviceRecord

/-- A device without its live figures. -/
def DeviceRecord.still (d : DeviceRecord) : DeviceRecord := { d with capacity := ⟨0, 0, 0, 0, 0⟩ }

/-- A node that has no device is placed on as the implicit one. -/
def NodeRecord.view (n : NodeRecord) : NodeView :=
  ⟨n.nodeId, n.state, n.storageClass, n.failureDomain, n.ensureLegacyDevice.devices.map DeviceRecord.still⟩

structure PlacementMap where
  config : Option ClusterConfig
  policies : Table Bytes StoragePolicy
  nodes : NodeId → Option NodeView

def ClusterCatalog.placementMap (s : ClusterCatalog) : PlacementMap :=
  ⟨s.config, s.storagePolicies, fun id => (s.node id).map NodeRecord.view⟩

theorem view_congr {n n' : NodeRecord} (hid : n'.nodeId = n.nodeId) (hstate : n'.state = n.state)
    (hclass : n'.storageClass = n.storageClass) (hdomain : n'.failureDomain = n.failureDomain)
    (hdevices : n'.devices = n.devices) : n'.view = n.view := by
  unfold NodeRecord.view NodeRecord.ensureLegacyDevice
  rw [hid, hstate, hclass, hdomain, hdevices]
  split_ifs
  · rfl
  · rw [hdevices]

/-- The map is the same if the rewritten node looks the same. -/
theorem placementMap_rewrites {n n' : NodeRecord} (h : Rewrites s id n n' s') (hconfig : s'.config = s.config)
    (hpolicies : s'.storagePolicies = s.storagePolicies) (hview : n'.view = n.view) :
    s'.placementMap = s.placementMap := by
  unfold placementMap
  rw [hconfig, hpolicies]
  congr 1
  funext i
  rw [node_insert h.2]
  split_ifs with hi
  · rw [hi, h.1, Option.map_some, Option.map_some, hview]
  · rfl

/-- One step of the map. -/
inductive MapStep (s s' : ClusterCatalog) : Prop
  | same (hmap : s'.placementMap = s.placementMap) (hepoch : s'.epoch = s.epoch)
  | moved (hepoch : s'.epoch = saturatingAdd (max s.epoch 1) 1)

theorem epoch_advance (s : ClusterCatalog) : s.advanceClusterMapEpoch.epoch = saturatingAdd (max s.epoch 1) 1 := by
  unfold epoch advanceClusterMapEpoch
  rw [readCounter_setCounter, if_pos rfl]

/-- The recount sets two other counters. -/
theorem keeps_recount : Keeps (fun s => (s.config, s.storagePolicies, s.epoch)) recountDurability := by
  refine keeps_bind (keeps_read _) fun identity => ?_
  cases identity with
  | none => exact keeps_pure _
  | some identity =>
    refine keeps_bind (keeps_bind (keeps_read _) fun _ => keeps_okOr _ _) fun _ => keeps_bind (keeps_read _) fun _ =>
      keeps_bind (keeps_read _) fun _ => keeps_modify fun s => ?_
    simp [epoch, setCounter, readCounter, Table.lookup_insert]

/-- What follows a change of state: the map moves on if there was one. -/
theorem mapStep_recount {changed : Bool} {u : Unit} {n n' : NodeRecord} {s₁ : ClusterCatalog}
    (h : Returns (when changed do
      modify fun s : ClusterCatalog => s.advanceClusterMapEpoch
      recountDurability) s₁ u s') (hs : Rewrites s id n n' s₁) (hsame : s₁ = s.putNode id n')
    (hview : changed = false → n'.view = n.view) : MapStep s s' := by
  rw [returns_when] at h
  rcases h with ⟨-, h⟩ | ⟨hchanged, -, rfl⟩
  · obtain ⟨_, _, hmodify, hrecount⟩ := returns_bind.mp h
    obtain ⟨-, rfl⟩ := returns_modify.mp hmodify
    have hkept := congrArg (·.2.2) (keeps_recount hrecount)
    refine .moved (hkept.trans ?_)
    rw [hsame]
    exact epoch_advance _
  · subst hsame
    exact .same (placementMap_rewrites hs rfl rfl (hview (by simpa using hchanged))) rfl

theorem replaceF_self {d : DeviceRecord} {x : DeviceId} {l : List DeviceRecord} (h : l.find? (·.id = x) = some d) :
    (l.replaceF fun y => if y.id = x then some d else none) = l := by
  induction l with
  | nil => rfl
  | cons a l ih =>
    rw [List.replaceF]
    rw [List.find?_cons] at h
    by_cases ha : a.id = x
    · simp only [ha, decide_true, Option.some.injEq] at h
      subst h
      simp only [ha, if_true]
    · simp only [ha, decide_false] at h
      simp only [ha, if_false, ih h]

theorem mapStep_registerNode {r : NodeRegistration} {time : DateTime} (h : Returns (registerNode r time) s o s') :
    MapStep s s' := by
  cases hn : s.node r.nodeId with
  | none =>
    obtain ⟨_, _, n, -, -, -, rfl, -⟩ := (returns_registerNode_new hn).mp h
    refine .moved ((epoch_advance _).trans ?_)
    simp [epoch, putNode, setCounter, readCounter, Table.lookup_insert]
  | some existing =>
    obtain ⟨n', -, rfl, -⟩ := returns_registerNode_known hn h
    exact .moved (epoch_advance _)

/-- A command that changes what placement reads moves the map on. -/
theorem mapStep_of_returns (hs : s.identity.isSome) (h : Returns (applyCommandTx c) s o s') : MapStep s s' := by
  cases c with
  | initializeCluster identity config =>
    obtain rfl := initializeCluster_again hs h
    exact .same rfl rfl
  | recordRecovery recoveryId reason time =>
    simp only [applyCommandTx, returns_bind, returns_read, returns_okOr, returns_modify, returns_pure] at h
    obtain ⟨_, _, ⟨-, rfl⟩, _, _, ⟨-, rfl⟩, _, _, rfl, _, _, rfl, -, rfl⟩ := h
    exact .moved (epoch_advance _)
  | updateConfig config time | putStoragePolicy policy time =>
    simp only [applyCommandTx, returns_bind, returns_refuse, returns_modify, returns_pure] at h
    obtain ⟨_, _, ⟨-, rfl⟩, _, _, rfl, _, _, rfl, -, rfl⟩ := h
    exact .moved (epoch_advance _)
  | registerNode r time => exact mapStep_registerNode h
  | updateNodeDescriptor id rpcAddress storageClass failureDomain time =>
    simp only [applyCommandTx, updateNode, returns_bind, returns_requireNode, returns_modify, returns_pure] at h
    obtain ⟨_, _, ⟨_, _, ⟨-, rfl⟩, _, _, ⟨-, rfl⟩, _, _, rfl, -, rfl⟩, _, _, rfl, -, rfl⟩ := h
    exact .moved (epoch_advance _)
  | setNodeState id state reason time =>
    simp only [applyCommandTx, setNodeState, returns_bind, returns_requireNode, returns_ofExcept, returns_modify,
      returns_pure] at h
    obtain ⟨n, _, ⟨hn, rfl⟩, ⟨moved, changed⟩, _, ⟨hmoved, rfl⟩, _, _, rfl, _, _, hrecount, -, rfl⟩ := h
    refine mapStep_recount hrecount ⟨hn, rfl⟩ rfl fun hchanged => ?_
    subst hchanged
    unfold NodeRecord.transition at hmoved
    split_ifs at hmoved with hstate
    · cases hmoved
      split_ifs <;> exact view_congr rfl rfl rfl rfl rfl
    · cases hmoved
  | registerDevice id device time =>
    simp only [applyCommandTx, registerDevice, returns_bind, returns_requireNode, returns_ensure, returns_ofExcept,
      returns_modify, returns_pure] at h
    obtain ⟨n, _, ⟨hn, rfl⟩, _, _, ⟨-, rfl⟩, _, _, ⟨-, rfl⟩, _, _, rfl, -, rfl⟩ := h
    exact .moved (epoch_advance _)
  | deleteStoragePolicy storageClass time =>
    simp only [applyCommandTx, returns_bind, returns_ensure, returns_modify, returns_pure] at h
    obtain ⟨_, _, ⟨-, rfl⟩, _, _, rfl, _, _, rfl, -, rfl⟩ := h
    exact .moved (epoch_advance _)
  | setDeviceState id device state time =>
    simp only [applyCommandTx, setDeviceState, returns_bind, returns_requireNode, returns_read, returns_ensure,
      returns_okOr, returns_ofExcept, returns_modify, returns_pure] at h
    obtain ⟨n, _, ⟨hn, rfl⟩, _, _, ⟨-, rfl⟩, _, _, ⟨-, rfl⟩, d, _, ⟨hd, rfl⟩, ⟨moved, changed⟩, _, ⟨hmoved, rfl⟩, _, _,
      rfl, _, _, hrecount, -, rfl⟩ := h
    refine mapStep_recount hrecount ⟨hn, rfl⟩ rfl fun hchanged => ?_
    subst hchanged
    unfold DeviceRecord.transition at hmoved
    split_ifs at hmoved
    · cases hmoved
      exact view_congr rfl rfl rfl rfl (replaceF_self hd)
    · cases hmoved
  | forgetNode id =>
    rcases returns_forgetNode h with ⟨-, rfl⟩ | ⟨n, -, -, -, rfl⟩
    · exact .same rfl rfl
    · exact .moved (epoch_advance _)
  | heartbeat id capacity time | setNodeMetadataVoter id voter time =>
    obtain ⟨hconfig, hpolicies, hepoch⟩ := map_of_returns h rfl
    obtain ⟨n, hn⟩ := rewrites_of_report h
    exact .same (placementMap_rewrites hn hconfig hpolicies (view_congr rfl rfl rfl rfl rfl)) hepoch
  | _ =>
    obtain ⟨hconfig, hpolicies, hepoch⟩ := map_of_returns h rfl
    refine .same ?_ hepoch
    unfold placementMap ClusterCatalog.node
    rw [hconfig, hpolicies, nodes_of_returns h rfl]

/-! ## The map over a run -/

/-- Once it is written, the identity stays. -/
theorem isSome_identity_of_returns (hs : s.identity.isSome) (h : Returns (applyCommandTx c) s o s') :
    s'.identity.isSome := by
  cases c with
  | initializeCluster identity config =>
    obtain rfl := initializeCluster_again hs h
    exact hs
  | recordRecovery recoveryId reason time =>
    simp only [applyCommandTx, returns_bind, returns_read, returns_okOr, returns_modify, returns_pure] at h
    obtain ⟨_, _, ⟨-, rfl⟩, _, _, ⟨-, rfl⟩, _, _, rfl, _, _, rfl, -, rfl⟩ := h
    rfl
  | _ =>
    rw [identity_of_returns h rfl]
    exact hs

theorem mapStep_next (hs : s.identity.isSome) (c : ClusterCommand) : MapStep s (s.next c) ∧
    (s.next c).identity.isSome :=
  commit_preserves (P := fun s' => MapStep s s' ∧ s'.identity.isSome) ⟨.same rfl rfl, hs⟩ fun _ _ hr =>
    ⟨mapStep_of_returns hs hr, isSome_identity_of_returns hs hr⟩

theorem toNat_max_one (a : UInt64) : (max a 1).toNat = max a.toNat 1 := by
  show (if a ≤ 1 then (1 : UInt64) else a).toNat = _
  split_ifs with h
  · rw [UInt64.le_iff_toNat_le, UInt64.toNat_one] at h
    rw [UInt64.toNat_one, max_eq_right h]
  · rw [UInt64.le_iff_toNat_le, UInt64.toNat_one] at h
    rw [max_eq_left (by omega)]

/-- An epoch below the last one is left for a higher one. -/
theorem MapStep.epoch_le (h : MapStep s s') :
    s.epoch.toNat ≤ s'.epoch.toNat ∧
      (s'.epoch = s.epoch → s.epoch.toNat < 2 ^ 64 - 1 → s'.placementMap = s.placementMap) := by
  cases h with
  | same hmap hepoch => exact ⟨by rw [hepoch], fun _ _ => hmap⟩
  | moved hepoch =>
    have hlt := s.epoch.toNat_lt
    have hnext := congrArg UInt64.toNat hepoch
    rw [saturatingAdd_toNat, toNat_max_one, UInt64.toNat_one] at hnext
    refine ⟨by omega, fun hsame hbelow => ?_⟩
    rw [hsame] at hnext
    omega

theorem map_run (commands : List ClusterCommand) : ∀ s : ClusterCatalog, s.identity.isSome →
    s.epoch.toNat ≤ (commands.foldl next s).epoch.toNat ∧
      ((commands.foldl next s).epoch = s.epoch → s.epoch.toNat < 2 ^ 64 - 1 →
        (commands.foldl next s).placementMap = s.placementMap) := by
  induction commands with
  | nil => exact fun s _ => ⟨le_rfl, fun _ _ => rfl⟩
  | cons c commands ih =>
    intro s hs
    obtain ⟨hstep, hs'⟩ := mapStep_next hs c
    obtain ⟨hle, hmap⟩ := hstep.epoch_le
    obtain ⟨hle', hmap'⟩ := ih (s.next c) hs'
    refine ⟨hle.trans hle', fun hsame hbelow => ?_⟩
    -- the epoch of the first step lies between two equal ones
    have hfirst : (s.next c).epoch = s.epoch := UInt64.toNat.inj (le_antisymm (by rw [← hsame]; exact hle') hle)
    exact (hmap' (hsame.trans hfirst.symm) (by rw [hfirst]; exact hbelow)).trans (hmap hfirst hbelow)

/-- The catalog after a prefix of the log. -/
def ClusterCatalog.upTo (log : List ClusterCommand) (i : Nat) : ClusterCatalog := (log.take i).foldl next .empty

theorem upTo_of_le (log : List ClusterCommand) {i j : Nat} (hij : i ≤ j) :
    ∃ commands : List ClusterCommand, ClusterCatalog.upTo log j = commands.foldl next (ClusterCatalog.upTo log i) := by
  refine ⟨(log.take j).drop i, ?_⟩
  unfold ClusterCatalog.upTo
  rw [← List.foldl_append]
  congr 1
  have htake : log.take i = (log.take j).take i := by rw [List.take_take, min_eq_left hij]
  rw [htake, List.take_append_drop]

/-- The epoch never goes back, and below its last value it names one map. -/
theorem map_epoch_identifies (log : List ClusterCommand) (i j : Nat) (hij : i ≤ j)
    (hinit : (ClusterCatalog.upTo log i).identity.isSome) :
    (ClusterCatalog.upTo log i).epoch ≤ (ClusterCatalog.upTo log j).epoch ∧
      ((ClusterCatalog.upTo log i).epoch = (ClusterCatalog.upTo log j).epoch →
        (ClusterCatalog.upTo log i).epoch.toNat < 2 ^ 64 - 1 →
        (ClusterCatalog.upTo log i).placementMap = (ClusterCatalog.upTo log j).placementMap) := by
  obtain ⟨commands, hj⟩ := upTo_of_le log hij
  obtain ⟨hle, hmap⟩ := map_run commands _ hinit
  rw [hj]
  exact ⟨UInt64.le_iff_toNat_le.mpr hle, fun hsame hbelow => (hmap hsame.symm hbelow).symm⟩

namespace Sample

def identity : ClusterIdentity := ⟨.ofNat 1, 1, .epoch, 0, none, none⟩

def newcomer (i : Nat) : NodeRegistration := ⟨.ofNat i, "", defaultStorageClass, [], ⟨0, 0, 0, 0⟩, []⟩

/-- A node joins, is decommissioned and forgotten, and joins again. -/
def comesAgain : List ClusterCommand :=
  [.registerNode (newcomer 3) .epoch, .setNodeState (.ofNat 3) .decommissioned none .epoch, .forgetNode (.ofNat 3),
    .registerNode (newcomer 3) .epoch]

end Sample

/-- A heartbeat does not move the map. -/
theorem map_epoch_identifies_heartbeat :
    (ClusterCatalog.upTo [.initializeCluster Sample.identity .default, .registerNode (Sample.newcomer 3) .epoch,
      .heartbeat (.ofNat 3) ⟨9, 9, 0, 0⟩ .epoch] 2).placementMap =
    (ClusterCatalog.upTo [.initializeCluster Sample.identity .default, .registerNode (Sample.newcomer 3) .epoch,
      .heartbeat (.ofNat 3) ⟨9, 9, 0, 0⟩ .epoch] 3).placementMap :=
  (map_epoch_identifies _ 2 3 (by decide) (by decide +kernel)).2 (by decide +kernel) (by decide +kernel)

theorem next_updateConfig {config : ClusterConfig} {time : DateTime} (h : config.invalid? = none) :
    s.next (.updateConfig config time) = { s with config := some config }.advanceClusterMapEpoch := by
  have hr : Returns (applyCommandTx (.updateConfig config time)) s (.config config)
      { s with config := some config }.advanceClusterMapEpoch := by
    simp only [applyCommandTx, returns_bind, returns_refuse, returns_modify, returns_pure]
    exact ⟨(), s, ⟨h, rfl⟩, (), _, rfl, (), _, rfl, trivial, rfl⟩
  unfold ClusterCatalog.next
  rw [commit_of_returns hr]

theorem epoch_updateConfig {config : ClusterConfig} {time : DateTime} (h : config.invalid? = none) :
    (s.next (.updateConfig config time)).epoch.toNat = min (max s.epoch.toNat 1 + 1) (2 ^ 64 - 1) := by
  rw [next_updateConfig h, epoch_advance, saturatingAdd_toNat, toNat_max_one, UInt64.toNat_one]
  rfl

namespace Sample

/-- The same configuration, again and again. -/
def updates (k : Nat) : List ClusterCommand :=
  .initializeCluster identity .default :: List.replicate k (.updateConfig .default .epoch)

/-- Another configuration. -/
def strict : ClusterConfig := { ClusterConfig.default with strictFailureDomains := true }

def update : ClusterCommand := .updateConfig strict .epoch

theorem updates_spec (k : Nat) :
    ((updates k).foldl next .empty).epoch.toNat = min (k + 1) (2 ^ 64 - 1) ∧
      ((updates k).foldl next .empty).config = some .default ∧
      ((updates k).foldl next .empty).identity = some identity := by
  induction k with
  | zero => decide +kernel
  | succ k ih =>
    obtain ⟨hepoch, hconfig, hidentity⟩ := ih
    have hnext : (updates (k + 1)).foldl next .empty =
        ((updates k).foldl next .empty).next (.updateConfig .default .epoch) := by
      rw [updates, List.replicate_succ', ← List.cons_append, List.foldl_append]
      rfl
    refine ⟨?_, ?_, ?_⟩
    · rw [hnext, epoch_updateConfig (by decide +kernel), hepoch]
      omega
    · rw [hnext, next_updateConfig (by decide +kernel)]
      rfl
    · rw [hnext, next_updateConfig (by decide +kernel)]
      exact hidentity

end Sample

/-- The last epoch names every map that follows. -/
theorem last_epoch_names_two_maps : ∃ log i j, i ≤ j ∧ (ClusterCatalog.upTo log i).identity.isSome ∧
    (ClusterCatalog.upTo log i).epoch = (ClusterCatalog.upTo log j).epoch ∧
    (ClusterCatalog.upTo log i).placementMap ≠ (ClusterCatalog.upTo log j).placementMap := by
  obtain ⟨k, hk⟩ : ∃ k, 2 ^ 64 ≤ k := ⟨_, le_rfl⟩
  obtain ⟨hepoch, hconfig, hidentity⟩ := Sample.updates_spec k
  have hat : ClusterCatalog.upTo (Sample.updates k ++ [Sample.update]) (Sample.updates k).length =
      (Sample.updates k).foldl next .empty := by
    rw [ClusterCatalog.upTo, List.take_left]
  have hat' : ClusterCatalog.upTo (Sample.updates k ++ [Sample.update]) ((Sample.updates k).length + 1) =
      ((Sample.updates k).foldl next .empty).next Sample.update := by
    rw [ClusterCatalog.upTo, List.take_of_length_le (by simp), List.foldl_append, List.foldl_cons, List.foldl_nil]
  have hvalid : Sample.strict.invalid? = none := by decide +kernel
  refine ⟨Sample.updates k ++ [Sample.update], (Sample.updates k).length, (Sample.updates k).length + 1, Nat.le_succ _,
    ?_, ?_, fun hsame => ?_⟩
  · rw [hat, hidentity, Option.isSome_some]
  · apply UInt64.toNat.inj
    rw [hat, hat', Sample.update, epoch_updateConfig hvalid, hepoch]
    omega
  · rw [hat, hat', Sample.update, next_updateConfig hvalid] at hsame
    have hconfigs : some ClusterConfig.default = some Sample.strict :=
      hconfig.symm.trans (congrArg PlacementMap.config hsame)
    exact absurd hconfigs (by decide +kernel)

/-! ## The numbers of the members -/

/-- The number of a node. -/
def ClusterCatalog.member (s : ClusterCatalog) (id : NodeId) : Option UInt64 := (s.node id).map (·.raftId)

/-- Every node is found by its number, and the next number is above all of them. -/
structure ClusterCatalog.Enrolled (s : ClusterCatalog) : Prop where
  below : ∀ id r, s.member id = some r → r.toNat < s.nextMember.toNat
  inverse : ∀ key value, s.nodeByMember[key]? = some value ↔
    ∃ id r, s.member id = some r ∧ key = beBytes 8 r.toNat ∧ value = id.bytes

/-- The number that a command hands out. -/
def ClusterCatalog.assigns (s : ClusterCatalog) : ClusterCommand → List (NodeId × UInt64)
  | .registerNode registration time =>
    match (commit (applyCommandTx (.registerNode registration time)) s).1 with
    | .ok (.registration _ raftId true) => [(registration.nodeId, raftId)]
    | _ => []
  | _ => []

/-- The numbers handed out by a run, in order. -/
def ClusterCatalog.assigned : ClusterCatalog → List ClusterCommand → List (NodeId × UInt64)
  | _, [] => []
  | s, c :: commands => s.assigns c ++ (s.next c).assigned commands

theorem assigned_append (commands rest : List ClusterCommand) (s : ClusterCatalog) :
    s.assigned (commands ++ rest) = s.assigned commands ++ (commands.foldl next s).assigned rest := by
  induction commands generalizing s with
  | nil => rfl
  | cons c commands ih => rw [List.cons_append, assigned, assigned, ih, List.append_assoc, List.foldl_cons]

/-- What a command does to the members. -/
inductive MemberStep (s : ClusterCatalog) (c : ClusterCommand) (s' : ClusterCatalog) : Prop
  | same (hassigns : s.assigns c = []) (hmember : s'.member = s.member)
      (hbook : s'.nodeByMember = s.nodeByMember ∧ s'.nextMember = s.nextMember)
  | join {id : NodeId} {r : UInt64} (hassigns : s.assigns c = [(id, r)]) (hnew : s.member id = none)
      (hr : r = max s.nextMember 1) (hmember : s'.member = fun i => if i = id then some r else s.member i)
      (hbook : s'.nodeByMember = s.nodeByMember.insert (beBytes 8 r.toNat) id.bytes ∧ s'.nextMember = saturatingAdd r 1)
  | leave {id : NodeId} {r : UInt64} (hassigns : s.assigns c = []) (hn : s.member id = some r)
      (hmember : s'.member = fun i => if i = id then none else s.member i)
      (hbook : s'.nodeByMember = s.nodeByMember.erase (beBytes 8 r.toNat) ∧ s'.nextMember = s.nextMember)

theorem member_insert {n : NodeRecord} (h : s'.nodes = s.nodes.insert id.bytes n) :
    s'.member = fun i => if i = id then some n.raftId else s.member i := by
  funext i
  unfold member
  rw [node_insert h]
  split_ifs <;> rfl

theorem member_rewrites {n n' : NodeRecord} (h : Rewrites s id n n' s') (hr : n'.raftId = n.raftId) :
    s'.member = s.member := by
  rw [member_insert h.2]
  funext i
  split_ifs with hi
  · rw [hi, member, h.1, Option.map_some, hr]
  · rfl

/-- Only who joins or leaves has another number than before. -/
theorem NodeEffect.member (h : NodeEffect s c s') (hc : c.enrolls = false) : s'.member = s.member := by
  cases h with
  | same _ h =>
    funext i
    rw [ClusterCatalog.member, ClusterCatalog.member, node_congr h]
  | report h _ hid _ _ => exact member_rewrites h hid.2
  | setState hmoved h =>
    refine member_rewrites h ?_
    split_ifs
    · exact (nodeId_transition hmoved).2
    · exact (nodeId_transition hmoved).2
  | registerDevice _ h => exact member_rewrites h (nodeId_ensureLegacyDevice _).2
  | setDeviceState _ _ _ h => exact member_rewrites h rfl
  | join | rejoin | comeBack | unknown | forget => cases hc

theorem nextMember_advance (s : ClusterCatalog) : s.advanceClusterMapEpoch.nextMember = s.nextMember := by
  unfold nextMember advanceClusterMapEpoch
  rw [readCounter_setCounter, if_neg (by decide)]

theorem nextMember_enroll (s : ClusterCatalog) (n : NodeRecord) :
    (s.enroll n).nextMember = saturatingAdd n.raftId 1 := by
  refine (nextMember_advance _).trans ?_
  simp [nextMember, putNode, setCounter, readCounter]

theorem memberStep_registerNode {r : NodeRegistration} {time : DateTime} (h : Returns (registerNode r time) s o s') :
    MemberStep s (.registerNode r time) s' := by
  have hassigns : s.assigns (.registerNode r time) =
      match (.ok o : Except ClusterFailure ClusterOutcome) with
      | .ok (.registration _ raftId true) => [(r.nodeId, raftId)]
      | _ => [] := by
    have hcommit : (commit (applyCommandTx (.registerNode r time)) s).1 = .ok o :=
      congrArg Prod.fst (commit_of_returns h)
    rw [assigns, hcommit]
  cases hn : s.node r.nodeId with
  | none =>
    obtain ⟨_, _, n, -, hjoining, -, rfl, rfl⟩ := (returns_registerNode_new hn).mp h
    have hid : n.nodeId = r.nodeId := by rw [hjoining]; rfl
    have hraft : n.raftId = max s.nextMember 1 := by rw [hjoining]; rfl
    rw [← hid] at hn hassigns
    exact .join hassigns (by rw [ClusterCatalog.member, hn]; rfl) hraft (member_insert rfl) ⟨rfl, nextMember_enroll s n⟩
  | some existing =>
    obtain ⟨n', hraft, rfl, rfl⟩ := returns_registerNode_known hn h
    exact .same hassigns (member_rewrites ⟨hn, rfl⟩ hraft) ⟨rfl, nextMember_advance _⟩

theorem memberStep_of_returns (hs : s.identity.isSome) (h : Returns (applyCommandTx c) s o s') : MemberStep s c s' := by
  cases c with
  | registerNode r time => exact memberStep_registerNode h
  | initializeCluster identity config =>
    obtain rfl := initializeCluster_again hs h
    exact .same rfl rfl ⟨rfl, rfl⟩
  | forgetNode id =>
    rcases returns_forgetNode h with ⟨-, rfl⟩ | ⟨n, hn, -, -, rfl⟩
    · exact .same rfl rfl ⟨rfl, rfl⟩
    · refine .leave rfl (congrArg (Option.map _) hn) ?_ ⟨rfl, nextMember_advance _⟩
      funext i
      rw [ClusterCatalog.member, node_erase id rfl]
      split_ifs <;> rfl
  | _ => exact .same rfl ((nodeEffect_of_returns h).member rfl) (members_of_returns h rfl)

theorem memberStep_next (hs : s.identity.isSome) (c : ClusterCommand) : MemberStep s c (s.next c) := by
  unfold ClusterCatalog.next
  rcases returns_or_fails (applyCommandTx c) s with ⟨o, s', hr⟩ | ⟨e, hf⟩
  · rw [commit_of_returns hr]
    exact memberStep_of_returns hs hr
  · rw [commit_of_fails hf]
    refine .same ?_ rfl ⟨rfl, rfl⟩
    unfold assigns
    split
    · rw [commit_of_fails hf]
    · rfl

theorem beBytes_member_inj {a b : UInt64} (h : beBytes 8 a.toNat = beBytes 8 b.toNat) : a = b := by
  have hvalue := congrArg beValue h
  rw [beValue_beBytes a.toNat_lt, beValue_beBytes b.toNat_lt] at hvalue
  exact UInt64.toNat.inj hvalue

theorem MemberStep.nextMember_le (h : MemberStep s c s') : s.nextMember.toNat ≤ s'.nextMember.toNat := by
  cases h with
  | same _ _ hbook => rw [hbook.2]
  | leave _ _ _ hbook => rw [hbook.2]
  | join _ _ hr _ hbook =>
    have hlt := s.nextMember.toNat_lt
    rw [hbook.2, hr, saturatingAdd_toNat, toNat_max_one, UInt64.toNat_one]
    omega

/-- As long as there are numbers left, a member that joins gets one nobody has. -/
theorem MemberStep.enrolled (h : MemberStep s c s') (hs : s.Enrolled) (hroom : s'.nextMember.toNat < 2 ^ 64 - 1) :
    s'.Enrolled := by
  cases h with
  | same _ hmember hbook => exact ⟨by rw [hmember, hbook.2]; exact hs.below, by rw [hmember, hbook.1]; exact hs.inverse⟩
  | @join id r _ hnew hr hmember hbook =>
    rw [hbook.2, saturatingAdd_toNat, UInt64.toNat_one] at hroom
    have hnext : s'.nextMember.toNat = r.toNat + 1 := by
      rw [hbook.2, saturatingAdd_toNat, UInt64.toNat_one]
      omega
    have hlow : s.nextMember.toNat ≤ r.toNat := by
      rw [hr, toNat_max_one]
      exact le_max_left _ _
    refine ⟨fun i r' hi => ?_, fun key value => ?_⟩
    · simp only [hmember] at hi
      split_ifs at hi
      · obtain rfl := Option.some.inj hi
        omega
      · have hbelow := hs.below i r' hi
        omega
    · simp only [hmember]
      rw [hbook.1, Table.lookup_insert]
      split_ifs with hkey
      · constructor
        · intro hvalue
          exact ⟨id, r, if_pos rfl, hkey, (Option.some.inj hvalue).symm⟩
        · rintro ⟨i, r', hi, hkey', rfl⟩
          obtain rfl := beBytes_member_inj (hkey.symm.trans hkey')
          split_ifs at hi with hid
          · rw [hid]
          · have hbelow := hs.below i r hi
            omega
      · rw [hs.inverse]
        constructor
        · rintro ⟨i, r', hi, hkey', hvalue⟩
          refine ⟨i, r', ?_, hkey', hvalue⟩
          rw [if_neg (fun hid => ?_), hi]
          rw [hid, hnew] at hi
          cases hi
        · rintro ⟨i, r', hi, hkey', hvalue⟩
          split_ifs at hi
          · obtain rfl := Option.some.inj hi
            exact absurd hkey' hkey
          · exact ⟨i, r', hi, hkey', hvalue⟩
  | @leave id r _ hn hmember hbook =>
    refine ⟨fun i r' hi => ?_, fun key value => ?_⟩
    · simp only [hmember] at hi
      split_ifs at hi
      rw [hbook.2]
      exact hs.below i r' hi
    · simp only [hmember]
      rw [hbook.1, Table.lookup_erase]
      split_ifs with hkey
      · refine ⟨fun hvalue => absurd hvalue (by simp), ?_⟩
        rintro ⟨i, r', hi, hkey', rfl⟩
        obtain rfl := beBytes_member_inj (hkey.symm.trans hkey')
        split_ifs at hi with hid
        have hfirst := (hs.inverse key id.bytes).mpr ⟨id, r, hn, hkey, rfl⟩
        have hsecond := (hs.inverse key i.bytes).mpr ⟨i, r, hi, hkey, rfl⟩
        exact absurd (Id.bytes_inj.mp (Option.some.inj (hsecond.symm.trans hfirst))) hid
      · rw [hs.inverse]
        constructor
        · rintro ⟨i, r', hi, hkey', hvalue⟩
          refine ⟨i, r', ?_, hkey', hvalue⟩
          rw [if_neg (fun hid => ?_), hi]
          rw [hid, hn] at hi
          obtain rfl := Option.some.inj hi
          exact hkey hkey'
        · rintro ⟨i, r', hi, hkey', hvalue⟩
          split_ifs at hi
          exact ⟨i, r', hi, hkey', hvalue⟩

/-- What a run hands out from `s` on. -/
structure Handout (s : ClusterCatalog) (commands : List ClusterCommand) : Prop where
  above : ∀ x ∈ s.assigned commands, s.nextMember.toNat ≤ x.2.toNat
  increasing : ((s.assigned commands).map (·.2)).Pairwise (· < ·)
  given : ∀ id r, (commands.foldl next s).member id = some r → s.member id = some r ∨ (id, r) ∈ s.assigned commands
  enrolled : (commands.foldl next s).Enrolled

theorem nextMember_run (commands : List ClusterCommand) : ∀ s : ClusterCatalog, s.identity.isSome →
    s.nextMember.toNat ≤ (commands.foldl next s).nextMember.toNat := by
  induction commands with
  | nil => exact fun s _ => le_rfl
  | cons c commands ih =>
    intro s hs
    exact (memberStep_next hs c).nextMember_le.trans (ih _ (mapStep_next hs c).2)

theorem handout_run (commands : List ClusterCommand) : ∀ s : ClusterCatalog, s.identity.isSome → s.Enrolled →
    (commands.foldl next s).nextMember.toNat < 2 ^ 64 - 1 → Handout s commands := by
  induction commands with
  | nil => exact fun s _ henrolled _ => ⟨by simp [assigned], by simp [assigned], fun id r h => .inl h, henrolled⟩
  | cons c commands ih =>
    intro s hs henrolled hroom
    have hstep := memberStep_next hs c
    have hs' := (mapStep_next hs c).2
    have hroom' : (s.next c).nextMember.toNat < 2 ^ 64 - 1 := lt_of_le_of_lt (nextMember_run commands _ hs') hroom
    have hrest := ih _ hs' (hstep.enrolled henrolled hroom') hroom
    have hle := hstep.nextMember_le
    cases hstep with
    | same hassigns hmember _ =>
      refine ⟨?_, ?_, ?_, hrest.enrolled⟩ <;> rw [assigned, hassigns, List.nil_append]
      · exact fun x hx => hle.trans (hrest.above x hx)
      · exact hrest.increasing
      · rw [← hmember]
        exact hrest.given
    | @join id r hassigns _ hr hmember hbook =>
      have hlow : s.nextMember.toNat ≤ r.toNat := by
        rw [hr, toNat_max_one]
        exact le_max_left _ _
      rw [hbook.2, saturatingAdd_toNat, UInt64.toNat_one] at hroom'
      have hnext : (s.next c).nextMember.toNat = r.toNat + 1 := by
        rw [hbook.2, saturatingAdd_toNat, UInt64.toNat_one]
        omega
      refine ⟨?_, ?_, ?_, hrest.enrolled⟩ <;> rw [assigned, hassigns, List.singleton_append]
      · intro x hx
        rcases List.mem_cons.mp hx with rfl | hx
        · exact hlow
        · exact hle.trans (hrest.above x hx)
      · rw [List.map_cons, List.pairwise_cons]
        refine ⟨fun r' hr' => ?_, hrest.increasing⟩
        obtain ⟨x, hx, rfl⟩ := List.mem_map.mp hr'
        have habove : r.toNat < x.2.toNat := by
          have hbelow := hrest.above x hx
          omega
        exact UInt64.lt_iff_toNat_lt.mpr habove
      · intro i r' hi
        rcases hrest.given i r' hi with hi | hi
        · simp only [hmember] at hi
          split_ifs at hi with hid
          · rw [hid, Option.some.inj hi]
            exact .inr List.mem_cons_self
          · exact .inl hi
        · exact .inr (List.mem_cons_of_mem _ hi)
    | leave hassigns _ hmember _ =>
      refine ⟨?_, ?_, ?_, hrest.enrolled⟩ <;> rw [assigned, hassigns, List.nil_append]
      · exact fun x hx => hle.trans (hrest.above x hx)
      · exact hrest.increasing
      · intro i r' hi
        rcases hrest.given i r' hi with hi | hi
        · simp only [hmember] at hi
          split_ifs at hi
          exact .inl hi
        · exact .inr hi

/-- The catalog of a cluster that was just initialized. -/
def ClusterCatalog.initialized (identity : ClusterIdentity) (config : ClusterConfig) : ClusterCatalog :=
  (ClusterCatalog.setCounter "next_member_id" 1
    { ClusterCatalog.empty with identity := some identity, config := some config }).setCounter "cluster_map_epoch" 1

theorem next_initializeCluster {identity : ClusterIdentity} {config : ClusterConfig} (h : config.invalid? = none) :
    ClusterCatalog.empty.next (.initializeCluster identity config) = .initialized identity config := by
  have hr : Returns (applyCommandTx (.initializeCluster identity config)) .empty (.identity identity)
      (.initialized identity config) := by
    simp only [applyCommandTx, initializeCluster, returns_bind, returns_refuse, returns_read]
    refine ⟨(), _, ⟨h, rfl⟩, _, _, ⟨rfl, rfl⟩, ?_⟩
    simp only [ClusterCatalog.empty, returns_bind, returns_modify, returns_pure]
    exact ⟨(), _, rfl, (), _, rfl, trivial, rfl⟩
  exact congrArg Prod.snd (commit_of_returns hr)

theorem member_initialized (identity : ClusterIdentity) (config : ClusterConfig) (id : NodeId) :
    (ClusterCatalog.initialized identity config).member id = none := congrArg (Option.map _) (Table.lookup_empty _)

theorem enrolled_initialized (identity : ClusterIdentity) (config : ClusterConfig) :
    (ClusterCatalog.initialized identity config).Enrolled := by
  refine ⟨fun id r h => ?_, fun key value => ?_⟩
  · rw [member_initialized] at h
    cases h
  · simp only [member_initialized]
    exact ⟨fun h => absurd (h.symm.trans (Table.lookup_empty _)) (by simp), by simp⟩

/-- While numbers are left, no number is handed out twice, every node is found by its own, and a catalog restored from a
snapshot goes on with the same numbers. -/
theorem member_ids_unique (identity : ClusterIdentity) (config : ClusterConfig) (hconfig : config.invalid? = none)
    (s : ClusterCatalog) (hs : s = ClusterCatalog.empty.next (.initializeCluster identity config))
    (commands rest : List ClusterCommand) (hroom : (commands.foldl next s).nextMember.toNat < 2 ^ 64 - 1) :
    ((s.assigned commands).map (·.2)).Pairwise (· < ·) ∧
    (∀ id r, (commands.foldl next s).member id = some r → (id, r) ∈ s.assigned commands) ∧
    (∀ key value, (commands.foldl next s).nodeByMember[key]? = some value ↔
      ∃ id r, (commands.foldl next s).member id = some r ∧ key = beBytes 8 r.toNat ∧ value = id.bytes) ∧
    s.assigned (commands ++ rest) = s.assigned commands ++
      (importTx (exportTx (commands.foldl next s))).assigned rest := by
  rw [next_initializeCluster hconfig] at hs
  subst hs
  have hrun := handout_run commands _ rfl (enrolled_initialized identity config) hroom
  refine ⟨hrun.increasing, fun id r h => ?_, hrun.enrolled.inverse, ?_⟩
  · rcases hrun.given id r h with h | h
    · rw [member_initialized] at h
      cases h
    · exact h
  · rw [assigned_append, importTx_exportTx]

/-- A node that was forgotten and registers again has a new number. -/
theorem member_ids_unique_again :
    (ClusterCatalog.empty.next (.initializeCluster Sample.identity .default)).assigned Sample.comesAgain =
      [(.ofNat 3, 1), (.ofNat 3, 2)] ∧
    (((ClusterCatalog.empty.next (.initializeCluster Sample.identity .default)).assigned Sample.comesAgain).map
      (·.2)).Pairwise (· < ·) :=
  ⟨by decide +kernel, (member_ids_unique Sample.identity .default (by decide +kernel) _ rfl Sample.comesAgain []
    (by decide +kernel)).1⟩

/-! ### The last number -/

theorem ofNat_inj {kind : IdKind} {i k : Nat} (hi : i < 2 ^ 128) (hk : k < 2 ^ 128) :
    (Id.ofNat i : Id kind) = .ofNat k ↔ i = k := by
  refine ⟨fun h => ?_, fun h => by rw [h]⟩
  have hbytes : beBytes 16 i = beBytes 16 k := congrArg Id.bytes h
  have hvalue := congrArg beValue hbytes
  rwa [beValue_beBytes (by simpa using hi), beValue_beBytes (by simpa using hk)] at hvalue

theorem next_registerNode_new (r : NodeRegistration) (time : DateTime) {config : ClusterConfig}
    (hn : s.node r.nodeId = none) (hconfig : s.config = some config) :
    ∃ n, s.next (.registerNode r time) = s.enroll n ∧ n.nodeId = r.nodeId ∧ n.raftId = max s.nextMember 1 := by
  obtain ⟨n, hn'⟩ : ∃ n, n = NodeRecord.joining r (max s.nextMember 1)
      (decide (s.countVoters < config.metadataVoterTarget.toUInt32)) time := ⟨_, rfl⟩
  have hr : Returns (registerNode r time) s (.registration n n.raftId true) (s.enroll n) :=
    (returns_registerNode_new hn).mpr ⟨config, _, n, hconfig, hn', rfl, rfl, rfl⟩
  exact ⟨n, congrArg Prod.snd (commit_of_returns hr), by rw [hn']; rfl, by rw [hn']; rfl⟩

namespace Sample

/-- One new node after another. -/
def registrations (k : Nat) : List ClusterCommand := (List.range k).map fun i => .registerNode (newcomer i) .epoch

theorem registrations_spec (k : Nat) (hk : k < 2 ^ 128) :
    ((registrations k).foldl next (.initialized identity .default)).nextMember.toNat = min (k + 1) (2 ^ 64 - 1) ∧
    ((registrations k).foldl next (.initialized identity .default)).config = some .default ∧
    ∀ i < 2 ^ 128, (((registrations k).foldl next (.initialized identity .default)).member (.ofNat i)).map (·.toNat) =
      if i < k then some (min (i + 1) (2 ^ 64 - 1)) else none := by
  induction k with
  | zero =>
    refine ⟨by decide +kernel, rfl, fun i _ => ?_⟩
    rw [if_neg (Nat.not_lt_zero i)]
    exact congrArg _ (member_initialized _ _ _)
  | succ k ih =>
    obtain ⟨hnext, hconfig, hmember⟩ := ih (by omega)
    generalize hs : (registrations k).foldl next (.initialized identity .default) = s at hnext hconfig hmember
    have hstep : (registrations (k + 1)).foldl next (.initialized identity .default) =
        s.next (.registerNode (newcomer k) .epoch) := by
      rw [registrations, List.range_succ, List.map_append, List.foldl_append, ← registrations, hs]
      rfl
    have hnone : s.node (.ofNat k) = none := by
      have hk' := hmember k (by omega)
      rw [if_neg (lt_irrefl k), Option.map_eq_none_iff] at hk'
      exact Option.map_eq_none_iff.mp hk'
    obtain ⟨n, henroll, hid, hraft⟩ := next_registerNode_new (newcomer k) .epoch hnone hconfig
    have hr : n.raftId.toNat = min (k + 1) (2 ^ 64 - 1) := by
      rw [hraft, toNat_max_one, hnext]
      omega
    rw [hstep, henroll]
    refine ⟨?_, hconfig, fun i hi => ?_⟩
    · rw [nextMember_enroll, saturatingAdd_toNat, UInt64.toNat_one, hr]
      omega
    · have hall : (s.enroll n).member = fun i => if i = n.nodeId then some n.raftId else s.member i := member_insert rfl
      simp only [hall, hid, newcomer, ofNat_inj hi (show k < 2 ^ 128 by omega)]
      split_ifs with hik hlt hlt
      · rw [Option.map_some, hr, hik]
      · omega
      · rw [hmember i hi, if_pos (by omega)]
      · rw [hmember i hi, if_neg (by omega)]

end Sample

/-- When the numbers are used up, two nodes have the last one. -/
theorem last_member_id_shared : ∃ (commands : List ClusterCommand) (a b : NodeId) (r : UInt64), a ≠ b ∧
    (commands.foldl next (ClusterCatalog.empty.next (.initializeCluster Sample.identity .default))).member a = some r ∧
    (commands.foldl next
      (ClusterCatalog.empty.next (.initializeCluster Sample.identity .default))).member b = some r := by
  obtain ⟨-, -, hmember⟩ := Sample.registrations_spec (2 ^ 64) (by decide)
  have hlast : ∀ i < 2 ^ 64, 2 ^ 64 - 2 ≤ i →
      ((Sample.registrations (2 ^ 64)).foldl next (.initialized Sample.identity .default)).member (.ofNat i) =
        some (UInt64.ofNat (2 ^ 64 - 1)) := by
    intro i hi hlow
    have h := hmember i (by omega)
    rw [if_pos hi, min_eq_right (by omega)] at h
    obtain ⟨r, hr, htoNat⟩ := Option.map_eq_some_iff.mp h
    rw [hr, ← htoNat, UInt64.ofNat_toNat]
  rw [next_initializeCluster (by decide +kernel)]
  exact ⟨Sample.registrations (2 ^ 64), .ofNat (2 ^ 64 - 2), .ofNat (2 ^ 64 - 1), _, by decide,
    hlast (2 ^ 64 - 2) (by decide) le_rfl, hlast (2 ^ 64 - 1) (by decide) (by decide)⟩

end RecordStore.Cluster

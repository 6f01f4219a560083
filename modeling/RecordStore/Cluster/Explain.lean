import RecordStore.Cluster.PlacementRules

/-!
# Cluster.Explain — why a device was passed over

`CapacityAwarePlacement::explain` walks over the topology a second time, with the filters of `place` written once more,
and gives every device that is not a candidate the rule that ruled it out.  One filter is its own: the device must be of
the class the request names, where `place` asks the policy alone.
-/

namespace RecordStore.Cluster

open RecordStore.Core

/-! ## The explanation -/

/-- Why a device was not available to a placement decision. -/
inductive PlacementRejection where
  | nodeNotAcceptingReplicas
  | deviceNotActive
  | deviceUnhealthy
  | wrongStorageClass
  | deviceKindFiltered
  | aboveCapacityWatermark
  | insufficientFreeSpace
  | nodeExcluded
  | deviceExcluded
  | alreadyHoldsReplica
  deriving DecidableEq

/-- One device that could not be selected, and the rule that ruled it out. -/
structure PlacementExclusion where
  nodeId : NodeId
  deviceId : DeviceId
  kind : DeviceKind
  reason : PlacementRejection
  deriving DecidableEq

/-- One candidate in an operator-facing placement explanation. -/
structure PlacementCandidateExplanation where
  nodeId : NodeId
  deviceId : DeviceId
  kind : DeviceKind
  domain : String
  effectiveWeight : Nat
  score : Nat
  selected : Bool
  deriving DecidableEq

/-- Read-only explanation of one deterministic decision. -/
structure PlacementExplanation where
  epoch : UInt64
  storageClass : StorageClass
  failureDomain : FailureDomainScope
  decision : PlacementPlan
  candidates : List PlacementCandidateExplanation
  excluded : List PlacementExclusion
  deriving DecidableEq

def PlacementExclusion.slot (x : PlacementExclusion) : Slot := (x.nodeId, x.deviceId)

def PlacementCandidateExplanation.slot (x : PlacementCandidateExplanation) : Slot := (x.nodeId, x.deviceId)

/-- Stable capacity-based weight used by rendezvous placement. -/
def DeviceRecord.effectiveWeight (d : DeviceRecord) : Nat :=
  d.capacity.usableBytes.toNat * d.configuredWeight.get.toNat / PlacementWeight.default.get.toNat

/-- The first rule that rules the device out. -/
def ObjectPlacementRequest.rejection (r : ObjectPlacementRequest) (t : ClusterTopology)
    (x : NodeRecord × DeviceRecord) : Option PlacementRejection :=
  let level := t.config.watermarks.level (x.2.capacity.utilizationPermille / 10)
  if ¬ x.1.state.acceptsNewReplicas then some .nodeNotAcceptingReplicas
  else if x.2.storageClass ≠ r.storageClass then some .wrongStorageClass
  else if ¬ r.eligibleClass x.2 then some .deviceKindFiltered
  else if ¬ x.2.state.acceptsNewPlacements then some .deviceNotActive
  else if ¬ x.2.health.permitsPlacement then some .deviceUnhealthy
  else if level = .critical ∨ ¬ level.acceptsNewReplicas then some .aboveCapacityWatermark
  else if ¬ x.2.eligibleForPlacement (r.reservation t) (r.reserve t x.2) then some .insufficientFreeSpace
  else if x.1.nodeId ∈ r.excludedNodes then some .nodeExcluded
  else if x.2.id ∈ r.excludedDevices then some .deviceExcluded
  else if x.1.nodeId ∈ r.existingNodes ∨ (x.1.nodeId, x.2.id) ∈ r.existingTargets then some .alreadyHoldsReplica
  else none

/-- The order of `sort_by_key(|entry| (entry.node_id, entry.device_id))`. -/
def PlacementExclusion.order (a b : PlacementExclusion) : Prop :=
  ((compare a.nodeId.bytes b.nodeId.bytes).then (compare a.deviceId.bytes b.deviceId.bytes)).isLE

instance : DecidableRel PlacementExclusion.order := fun _ _ => inferInstanceAs (Decidable (_ = true))

/-- Explained candidates are ordered as the candidates are. -/
def PlacementCandidateExplanation.order (a b : PlacementCandidateExplanation) : Prop :=
  Candidate.order ⟨a.nodeId, a.deviceId, "", a.domain, a.score⟩ ⟨b.nodeId, b.deviceId, "", b.domain, b.score⟩

instance : DecidableRel PlacementCandidateExplanation.order := fun _ _ =>
  inferInstanceAs (Decidable (Candidate.order _ _))

section Explain

variable (score : Score) (localNode : Option NodeId) (r : ObjectPlacementRequest) (t : ClusterTopology)

/-- A candidate as it is explained, when the devices of `selected` were chosen. -/
def explained (selected : List DeviceId) (x : NodeRecord × DeviceRecord) : PlacementCandidateExplanation :=
  let c := candidate score r t x.1 x.2
  ⟨c.nodeId, c.deviceId, x.2.kind, c.domain, max x.2.effectiveWeight 1, c.score, decide (c.deviceId ∈ selected)⟩

/-- Explains which devices were eligible, which were not, and why. -/
def explain : Except PlacementError PlacementExplanation := do
  let decision ← place score localNode r t
  let selected := decision.targets.map (·.deviceId)
  return {
    epoch := t.epoch
    storageClass := r.storageClass
    failureDomain := r.scope t
    decision := decision
    candidates := ((t.owned.filter fun x => decide (r.rejection t x = none)).map
      (explained score r t selected)).insertionSort PlacementCandidateExplanation.order
    excluded := (t.owned.filterMap fun x =>
      (r.rejection t x).map fun reason =>
      ⟨x.1.nodeId, x.2.id, x.2.kind, reason⟩).insertionSort PlacementExclusion.order }

end Explain

/-! ## What it tells -/

section Truth

variable {score : Score} {localNode : Option NodeId} {r : ObjectPlacementRequest} {t : ClusterTopology}
  {ex : PlacementExplanation}

/-- The filters of the walk are those of `place`, and one more. -/
theorem rejection_eq_none {x : NodeRecord × DeviceRecord} :
    r.rejection t x = none ↔ r.admits t x = true ∧ x.2.storageClass = r.storageClass := by
  simp only [ObjectPlacementRequest.rejection, ObjectPlacementRequest.admits, ObjectPlacementRequest.hasRoom,
    ObjectPlacementRequest.bars, DeviceRecord.eligibleForPlacement, Bool.and_eq_true, Bool.not_eq_true',
    Bool.or_eq_false_iff, decide_eq_true_eq, decide_eq_false_iff_not]
  split_ifs <;> grind

theorem explain_ok (h : explain score localNode r t = .ok ex) : place score localNode r t = .ok ex.decision ∧
    ex.candidates = ((t.owned.filter fun x => decide (r.rejection t x = none)).map
      (explained score r t (ex.decision.targets.map (·.deviceId)))).insertionSort PlacementCandidateExplanation.order ∧
    ex.excluded = (t.owned.filterMap fun x => (r.rejection t x).map fun reason =>
      ⟨x.1.nodeId, x.2.id, x.2.kind, reason⟩).insertionSort PlacementExclusion.order := by
  unfold explain at h
  cases hplace : place score localNode r t with
  | error e =>
    rw [hplace] at h
    cases h
  | ok plan =>
    rw [hplace] at h
    obtain rfl := Except.ok.inj h
    exact ⟨rfl, rfl, rfl⟩

/-- Every device is a candidate or excluded, and not both. -/
theorem explain_lists (h : explain score localNode r t = .ok ex) :
    (ex.candidates.map (·.slot) ++ ex.excluded.map (·.slot)).Perm (t.owned.map fun x => (x.1.nodeId, x.2.id)) := by
  obtain ⟨-, hcand, hexcl⟩ := explain_ok h
  rw [hcand, hexcl]
  refine (((List.perm_insertionSort ..).map _).append ((List.perm_insertionSort ..).map _)).trans ?_
  rw [List.map_map, List.map_filterMap]
  induction t.owned with
  | nil => exact .nil
  | cons x xs ih =>
    cases hx : r.rejection t x with
    | none =>
      simp only [List.filter_cons, List.filterMap_cons, hx, decide_true, if_true, Option.map_none, List.map_cons,
        List.cons_append]
      exact ih.cons _
    | some reason =>
      simp only [List.filter_cons, List.filterMap_cons, hx, reduceCtorEq, decide_false, Bool.false_eq_true, if_false,
        Option.map_some, List.map_cons]
      exact List.perm_middle.trans (ih.cons _)

/-- What `place` considers of the class the request names. -/
def named (r : ObjectPlacementRequest) (t : ClusterTopology) : List (NodeRecord × DeviceRecord) :=
  (r.eligible t).filter fun x => decide (x.2.storageClass = r.storageClass)

theorem filter_rejection : (t.owned.filter fun x => decide (r.rejection t x = none)) = named r t := by
  rw [named, eligible_eq, List.filter_filter]
  refine List.filter_congr fun x _ => ?_
  rw [Bool.eq_iff_iff, decide_eq_true_eq, rejection_eq_none, Bool.and_eq_true, decide_eq_true_eq, and_comm]

/-- The explanation ranks them as `place` does. -/
theorem explained_ranked (selected : List DeviceId) {β : Type} (f : PlacementCandidateExplanation → β)
    (g : Candidate → β)
    (hfg : ∀ x ∈ named r t, f (explained score r t selected x) = g (candidate score r t x.1 x.2)) :
    (((named r t).map (explained score r t selected)).insertionSort PlacementCandidateExplanation.order).map f =
      (((named r t).map fun x => candidate score r t x.1 x.2).insertionSort Candidate.order).map g := by
  let ranked : NodeRecord × DeviceRecord → NodeRecord × DeviceRecord → Prop := fun x y =>
    Candidate.order (candidate score r t x.1 x.2) (candidate score r t y.1 y.2)
  rw [← List.map_insertionSort ranked PlacementCandidateExplanation.order (explained score r t selected) (named r t)
      fun _ _ _ _ => Iff.rfl,
    ← List.map_insertionSort ranked Candidate.order (fun x => candidate score r t x.1 x.2) (named r t)
      fun _ _ _ _ => Iff.rfl, List.map_map, List.map_map]
  exact List.map_congr_left fun x hx => hfg x (List.mem_insertionSort _ |>.mp hx)

variable (hids : t.deviceIds.Nodup)

include hids

theorem nodup_owned : (t.owned.map fun x => x.2.id).Nodup := by
  rwa [ClusterTopology.deviceIds, ClusterTopology.drives, List.map_map] at hids

/-- A device that is considered is a target when its identifier is one of a target. -/
theorem mem_targets_iff {plan : PlacementPlan} (h : place score localNode r t = .ok plan)
    {x : NodeRecord × DeviceRecord} (hx : x ∈ r.eligible t) :
    x.2.id ∈ plan.targets.map (·.deviceId) ↔ (x.1.nodeId, x.2.id) ∈ plan.targets.map (·.slot) := by
  constructor
  · intro hid
    obtain ⟨y, hy, e⟩ := List.mem_map.mp hid
    obtain ⟨c, hc, hslot⟩ := (mem_slots h).mp (List.mem_map_of_mem hy)
    obtain ⟨x', hx', rfl⟩ := eligible_of_chosen hids hc
    rw [eligible_eq] at hx hx'
    have hsame : x' = x := List.inj_on_of_nodup_map (nodup_owned hids) (List.mem_of_mem_filter hx')
      (List.mem_of_mem_filter hx) ((congrArg Prod.snd hslot).trans e)
    exact (mem_slots h).mpr ⟨_, hc, hsame ▸ rfl⟩
  · intro hslot
    obtain ⟨y, hy, e⟩ := List.mem_map.mp hslot
    exact List.mem_map.mpr ⟨y, hy, congrArg Prod.snd e⟩

end Truth

/-- What is eligible is of the class of the policy, or of the class named if there is no policy. -/
theorem storageClass_of_eligible {r : ObjectPlacementRequest} {t : ClusterTopology} {x : NodeRecord × DeviceRecord}
    (hpolicy : ∀ policy ∈ r.policy, policy.storageClass = r.storageClass) (hx : x ∈ r.eligible t) :
    x.2.storageClass = r.storageClass := by
  rw [eligible_eq] at hx
  have hadmits := (List.mem_filter.mp hx).2
  simp only [ObjectPlacementRequest.admits, ObjectPlacementRequest.eligibleClass, Bool.and_eq_true] at hadmits
  cases hp : r.policy with
  | none =>
    rw [hp] at hadmits
    exact of_decide_eq_true hadmits.1.2.1
  | some policy =>
    simp only [hp, StoragePolicy.acceptsDevice, Bool.and_eq_true, decide_eq_true_eq] at hadmits
    exact hadmits.1.2.1.1.trans (hpolicy policy hp)

/-- An explanation lists every device, and ranks and marks what `place` does if that is of the class the request
names, as it is if the policy of the request is of that class. -/
theorem explain_truthful_iff (score : Score) (localNode : Option NodeId) (r : ObjectPlacementRequest)
    (t : ClusterTopology) (hids : t.deviceIds.Nodup) :
    (∀ e, explain score localNode r t = .error e ↔ place score localNode r t = .error e) ∧
    ((∀ policy ∈ r.policy, policy.storageClass = r.storageClass) →
      ∀ x ∈ r.eligible t, x.2.storageClass = r.storageClass) ∧
    ∀ ex, explain score localNode r t = .ok ex →
      place score localNode r t = .ok ex.decision ∧
      (ex.candidates.map (·.slot) ++ ex.excluded.map (·.slot)).Perm (t.owned.map fun x => (x.1.nodeId, x.2.id)) ∧
      (ex.candidates.map (·.slot) = (candidates score r t).map (fun c => (c.nodeId, c.deviceId)) ↔
        ∀ x ∈ r.eligible t, x.2.storageClass = r.storageClass) ∧
      (((ex.candidates.filter (·.selected)).map (·.slot)).Perm (ex.decision.targets.map (·.slot)) ↔
        ∀ x ∈ r.eligible t, (x.1.nodeId, x.2.id) ∈ ex.decision.targets.map (·.slot) →
          x.2.storageClass = r.storageClass) := by
  refine ⟨fun e => ?_, fun hpolicy x hx => storageClass_of_eligible hpolicy hx, fun ex h => ?_⟩
  · unfold explain
    cases place score localNode r t with
    | error e' => constructor <;> (intro h; cases h; rfl)
    | ok plan => exact iff_of_false (fun h => by cases h) fun h => by cases h
  obtain ⟨hplace, hcand, -⟩ := explain_ok h
  rw [filter_rejection] at hcand
  refine ⟨hplace, explain_lists h, ?_, ?_⟩
  · rw [hcand, explained_ranked _ _ (fun c => (c.nodeId, c.deviceId)) fun _ _ => rfl, candidates]
    constructor
    · intro e
      have hlen := congrArg List.length e
      simp only [List.length_map, List.length_insertionSort, named] at hlen
      intro x hx
      simpa using List.length_filter_eq_length_iff.mp hlen x hx
    · intro hall
      rw [named, List.filter_eq_self.mpr fun x hx => decide_eq_true (hall x hx)]
  · have hleft : ((ex.candidates.filter (·.selected)).map (·.slot)).Nodup := by
      have hall := (explain_lists h).nodup_iff.mpr (.of_map Prod.snd (by rw [List.map_map]; exact nodup_owned hids))
      exact hall.of_append_left.sublist (List.filter_sublist.map _)
    have hright : (ex.decision.targets.map (·.slot)).Nodup :=
      .of_map Prod.snd (by rw [List.map_map]; exact nodup_targets hids hplace)
    have hmem : ∀ y, y ∈ (ex.candidates.filter (·.selected)).map (·.slot) ↔
        ∃ x ∈ r.eligible t, x.2.storageClass = r.storageClass ∧ (x.1.nodeId, x.2.id) = y ∧
          y ∈ ex.decision.targets.map (·.slot) := by
      intro y
      rw [hcand]
      simp only [List.mem_map, List.mem_filter, List.mem_insertionSort, named, decide_eq_true_eq]
      constructor
      · rintro ⟨_, ⟨⟨x, ⟨hx, hclass⟩, rfl⟩, hsel⟩, rfl⟩
        have hsel : x.2.id ∈ ex.decision.targets.map (·.deviceId) := of_decide_eq_true hsel
        exact ⟨x, hx, hclass, rfl, List.mem_map.mp ((mem_targets_iff hids hplace hx).mp hsel)⟩
      · rintro ⟨x, hx, hclass, rfl, hy⟩
        refine ⟨_, ⟨⟨x, ⟨hx, hclass⟩, rfl⟩, decide_eq_true ?_⟩, rfl⟩
        exact (mem_targets_iff hids hplace hx).mpr (List.mem_map.mpr hy)
    rw [List.perm_ext_iff_of_nodup hleft hright]
    constructor
    · intro hsame x hx hy
      obtain ⟨x', hx', hclass, e, -⟩ := (hmem _).mp ((hsame _).mpr hy)
      rw [eligible_eq] at hx hx'
      rwa [← List.inj_on_of_nodup_map (nodup_owned hids) (List.mem_of_mem_filter hx') (List.mem_of_mem_filter hx)
        (congrArg Prod.snd e)]
    · intro hclass y
      rw [hmem]
      constructor
      · rintro ⟨_, -, -, -, hy⟩
        exact hy
      · intro hy
        obtain ⟨c, hc, rfl⟩ := (mem_slots hplace).mp hy
        obtain ⟨x, hx, rfl⟩ := eligible_of_chosen hids hc
        exact ⟨x, hx, hclass x hx hy, rfl, hy⟩

/-- The racks are explained as they are chosen. -/
theorem explain_truthful_racks : ∃ ex, explain Racks.even none Racks.request (Racks.topology false) = .ok ex ∧
    (ex.candidates.filter (·.selected)).length = 3 ∧
    ((ex.candidates.filter (·.selected)).map (·.slot)).Perm (ex.decision.targets.map (·.slot)) := by
  obtain ⟨ex, h, hlen⟩ : ∃ ex, explain Racks.even none Racks.request (Racks.topology false) = .ok ex ∧
      (ex.candidates.filter (·.selected)).length = 3 := ⟨_, rfl, by decide +kernel⟩
  obtain ⟨-, hclass, hexplained⟩ := explain_truthful_iff Racks.even none Racks.request (Racks.topology false)
    (by decide +kernel)
  obtain ⟨-, -, -, hselected⟩ := hexplained ex h
  exact ⟨ex, h, hlen, hselected.mpr fun x hx _ => hclass (by decide +kernel) x hx⟩

namespace Racks

/-- A policy of the default class, in a request that names another. -/
def mixed : ObjectPlacementRequest :=
  { ObjectPlacementRequest.new (.ofNat 7) 1 1 ⟨"archive", by decide⟩ with
    policy := some ⟨defaultStorageClass, none, [], .replication 1, .rack, false, 0⟩ }

end Racks

/-- The target of the plan is explained as a device of the wrong class.  And where there is no plan, nothing is
explained. -/
theorem explanation_denies_target :
    (∃ ex, explain Racks.even none Racks.mixed (Racks.topology false) = .ok ex ∧ ex.candidates = [] ∧
      ∃ x ∈ ex.excluded, x.reason = .wrongStorageClass ∧ x.slot ∈ ex.decision.targets.map (·.slot)) ∧
    explain Racks.even none Racks.request (Racks.topology true) = .error (.insufficientFailureDomains .rack 3 4) :=
  ⟨⟨_, rfl, by decide +kernel⟩, by decide +kernel⟩

end RecordStore.Cluster

import RecordStore.Cluster.PlacementRules

/-!
# Cluster.Rebalance — planned replica moves

`plan_rebalance`.  A payload with a replica on a device that is too full is offered to `place` without that replica,
with every device excluded that should not receive; the first target is the destination of the move.  The request
carries no policy: of the constraints of a storage class only its label is looked at, and a domain is reused when
none is free.
-/

namespace RecordStore.Cluster

open RecordStore.Lib RecordStore.Core

/-! ## The plan -/

/-- A single planned replica move. -/
structure RebalanceMove where
  objectId : ObjectId
  sourceNode : NodeId
  sourceDevice : DeviceId
  targetNode : NodeId
  targetDevice : DeviceId
  size : UInt64
  deriving DecidableEq

/-- Whether rebalancing should actively drain a device at this level. -/
def CapacityLevel.needsRelief : CapacityLevel → Bool
  | urgent | critical => true
  | _ => false

/-- Utilization in whole percent. -/
def DeviceRecord.utilization (d : DeviceRecord) : Nat := d.capacity.utilizationPermille / 10

namespace ClusterTopology

variable (t : ClusterTopology)

/-- Only devices on participating nodes can send or receive. -/
def participants : List (NodeRecord × DeviceRecord) := t.owned.filter fun x => decide (x.1.state = .healthy)

def meanUtilization : Nat := (t.participants.map (·.2.utilization)).sum / t.participants.length

def donors : List DeviceId :=
  (t.participants.filter fun x =>
    decide (t.meanUtilization + t.config.rebalance.tolerancePercent.toNat < x.2.utilization) ||
      (t.config.watermarks.level x.2.utilization).needsRelief).map (·.2.id)

/-- A device that cannot take new placement cannot take a rebalance either. -/
def recipients : List DeviceId :=
  (t.participants.filter fun x =>
    decide (x.2.utilization + t.config.rebalance.tolerancePercent.toNat < t.meanUtilization) &&
      decide (t.config.watermarks.level x.2.utilization = .normal) && x.2.state.acceptsNewPlacements).map (·.2.id)

/-- What each recipient may receive of so many payloads. -/
def fairShare (payloads : Nat) : Nat := max (payloads ⌈/⌉ max t.recipients.dedup.length 1) 1

end ClusterTopology

/-- Every other replica stays where it is; the slot of the source is the one being refilled. -/
def moveRequest (t : ClusterTopology) (share : Nat) (moves : List RebalanceMove) (p : PayloadPlacement)
    (source : Replica) : ObjectPlacementRequest :=
  { ObjectPlacementRequest.new p.objectId (UInt8.ofNat (min p.replicas.length 255)) 1 p.storageClass with
    sizeHint := some p.size
    existingTargets := ((p.replicas.filter fun r => decide (r.deviceId ≠ source.deviceId)).map (·.slot)).dedup
    excludedDevices := (t.participants.map (·.2.id)).filter fun id =>
      decide (id = source.deviceId) || decide (id ∉ t.recipients) ||
        decide (share ≤ moves.countP (·.targetDevice = id)) }

section Plan

variable (score : Score) (localNode : Option NodeId) (t : ClusterTopology)

/-- The move of one payload, after those that are planned already. -/
def planMove (share : Nat) (moves : List RebalanceMove) (p : PayloadPlacement) : Option RebalanceMove :=
  match p.replicas.find? fun r => decide (r.deviceId ∈ t.donors) with
  | none => none
  | some source =>
    if source.state.usableAsSource then
      match place score localNode (moveRequest t share moves p source) t with
      | .error _ => none
      | .ok plan => plan.targets.head?.map fun target =>
        ⟨p.objectId, source.nodeId, source.deviceId, target.nodeId, target.deviceId, p.size⟩
    else none

/-- The loop over the payloads. -/
def planMoves (share maximumMoves : Nat) : List PayloadPlacement → List RebalanceMove → List RebalanceMove
  | [], moves => moves
  | p :: rest, moves =>
    if maximumMoves ≤ moves.length then moves
    else planMoves share maximumMoves rest (moves ++ (planMove score localNode t share moves p).toList)

/-- Plans capacity-driven replica movement. -/
def planRebalance (payloads : List PayloadPlacement) (maximumMoves : Nat) : List RebalanceMove :=
  if maximumMoves = 0 ∨ t.participants.length < 2 ∨ t.donors = [] ∨ t.recipients = [] then []
  else planMoves score localNode t (t.fairShare payloads.length) maximumMoves payloads []

end Plan

/-! ## What a move does to a payload -/

namespace RebalanceMove

def source (m : RebalanceMove) : Slot := (m.sourceNode, m.sourceDevice)

def target (m : RebalanceMove) : Slot := (m.targetNode, m.targetDevice)

/-- Where the replicas of a payload are after the move. -/
def apply (m : RebalanceMove) (slots : List Slot) : List Slot := slots.map fun x => if x = m.source then m.target else x

end RebalanceMove

namespace ClusterTopology

variable (t : ClusterTopology) (scope : FailureDomainScope)

/-- The failure domain of a device, at a level. -/
def domainAt (x : Slot) : Option String := (t.node x.1).map fun n => placementDomain n x.2 scope

/-- How many failure domains the replicas are in. -/
def domainCount (slots : List Slot) : Nat := (slots.filterMap (t.domainAt scope)).dedup.length

/-- The failure domains of the replicas that stay. -/
def otherDomains (p : PayloadPlacement) (source : Replica) : List String :=
  ((p.replicas.filter fun r => decide (r.deviceId ≠ source.deviceId)).map (·.slot)).filterMap (t.domainAt scope)

end ClusterTopology

/-- The devices a single replica may go to: those of a free domain; any if there is none and placement is not strict. -/
def ObjectPlacementRequest.openDevices (r : ObjectPlacementRequest) (t : ClusterTopology) :
    List (NodeRecord × DeviceRecord) :=
  (r.eligible t).filter fun x =>
    decide (placementDomain x.1 x.2.id (r.scope t) ∉ r.occupied t ∨ r.freeDomains t = [] ∧ r.strict t = false)

namespace StoragePolicy

variable (policy : StoragePolicy) (t : ClusterTopology) (p : PayloadPlacement)

/-- Whether the payload fits on the device beside the reserve of the class. -/
def fitsReserve (d : DeviceRecord) : Bool :=
  d.eligibleForPlacement p.size
    (saturatingAdd t.config.capacitySafetyMarginBytes (policy.reservedBytes d.capacity.usableBytes))

/-- What the class asks of a move: a device it accepts, with its reserve to spare, and as many failure domains of
its own level as before if it is strict. -/
def Keeps (m : RebalanceMove) : Prop :=
  ∃ x ∈ t.owned, m.target = (x.1.nodeId, x.2.id) ∧ policy.acceptsDevice x.2 = true ∧ policy.fitsReserve t p x.2 = true ∧
    (policy.strictFailureDomains = true → t.domainCount policy.failureDomain (p.replicas.map (·.slot)) ≤
      t.domainCount policy.failureDomain (m.apply (p.replicas.map (·.slot))))

/-- What it asks of a device that the replica might go to. -/
def Suits (source : Replica) (x : NodeRecord × DeviceRecord) : Prop :=
  (policy.allowedKinds = [] ∨ x.2.kind ∈ policy.allowedKinds) ∧ policy.fitsReserve t p x.2 = true ∧
    (policy.strictFailureDomains = true →
      placementDomain x.1 x.2.id policy.failureDomain ∉ t.otherDomains policy.failureDomain p source ∨
        ∀ d ∈ t.domainAt policy.failureDomain source.slot, d ∈ t.otherDomains policy.failureDomain p source)

instance (source : Replica) (x : NodeRecord × DeviceRecord) : Decidable (policy.Suits t p source x) :=
  inferInstanceAs (Decidable (_ ∧ _ ∧ (_ → _)))

end StoragePolicy

/-! ## The device that is chosen -/

section Target

variable {score : Score} {localNode : Option NodeId} {r : ObjectPlacementRequest} {t : ClusterTopology}
  {x : NodeRecord × DeviceRecord} (hids : t.deviceIds.Nodup) (hone : r.wanted = 1)

include hids

/-- A score that puts one device first. -/
def preferring (x : NodeRecord × DeviceRecord) : Score :=
  fun _ _ n d => if (n, d.id) = (x.1.nodeId, x.2.id) then 0 else 1

theorem candidates_preferring (hx : x ∈ r.eligible t) :
    ∃ rest, candidates (preferring x) r t = candidate (preferring x) r t x.1 x.2 :: rest := by
  have hmem : candidate (preferring x) r t x.1 x.2 ∈ candidates (preferring x) r t :=
    candidates_perm.mem_iff.mpr (List.mem_map_of_mem hx)
  have hsorted : (candidates (preferring x) r t).Pairwise Candidate.order := List.pairwise_insertionSort ..
  have hnodup := nodup_candidates (preferring x) r hids
  have hzero : (candidate (preferring x) r t x.1 x.2).score = 0 := if_pos rfl
  cases hl : candidates (preferring x) r t with
  | nil => rw [hl] at hmem; cases hmem
  | cons a rest =>
    refine ⟨rest, congrArg (· :: rest) ?_⟩
    have ha : a ∈ candidates (preferring x) r t := hl ▸ List.mem_cons_self
    obtain ⟨y, hy, rfl⟩ := List.mem_map.mp (candidates_perm.mem_iff.mp ha)
    rw [hl] at hsorted hmem
    rcases List.mem_cons.mp hmem with e | hrest
    · exact e.symm
    · -- nothing but the device itself has a score as low as its own
      have hscore : (candidate (preferring x) r t y.1 y.2).score = 0 := by
        rcases (List.pairwise_cons.mp hsorted).1 _ hrest with h | h
        · omega
        · exact h.1.trans hzero
      have hslot : (y.1.nodeId, y.2.id) = (x.1.nodeId, x.2.id) := by
        by_contra hne
        have hhigh : (candidate (preferring x) r t y.1 y.2).score = 1 := if_neg hne
        omega
      exact List.inj_on_of_nodup_map hnodup ha (hl ▸ hmem) (congrArg Prod.snd hslot)

include hone

/-- What a single replica gets is open to it. -/
theorem open_of_target {plan : PlacementPlan} {target : PlacementTarget} (hplan : place score localNode r t = .ok plan)
    (htarget : plan.targets.head? = some target) : ∃ x ∈ r.openDevices t, target.slot = (x.1.nodeId, x.2.id) := by
  have hnodup := nodup_candidates score r hids
  have hmem : target ∈ plan.targets := List.mem_of_head? htarget
  rw [(place_ok hplan).2.2.2, (localFirst_perm ..).mem_iff, List.mem_map] at hmem
  obtain ⟨c, hc, rfl⟩ := hmem
  obtain ⟨x, hx, rfl⟩ := eligible_of_chosen hids hc
  refine ⟨x, ?_, rfl⟩
  rw [chosen_eq hnodup, hone, spreadRanking] at hc
  have hlength := length_firsts_candidates (r := r) (t := t) score
  cases hfirst : firsts Candidate.domain (r.occupied t) (candidates score r t) with
  | nil =>
    rw [hfirst, List.length_nil] at hlength
    have hshort : (firstPass score r t).1.length < r.wanted := short_iff.mpr (by omega)
    have hnotStrict : ¬ r.strict t = true := fun hstrict => (place_reused hplan).2 (by simp [Refuses, hstrict, hshort])
    exact List.mem_filter.mpr ⟨hx, decide_eq_true
      (.inr ⟨List.length_eq_zero_iff.mp hlength.symm, Bool.eq_false_iff.mpr hnotStrict⟩)⟩
  | cons a l =>
    rw [hfirst] at hc
    obtain rfl : candidate score r t x.1 x.2 = a := by simpa using hc
    have hfresh := (firsts_fresh (f := Candidate.domain) (r.occupied t) (candidates score r t)).2 _
      (hfirst ▸ List.mem_cons_self)
    exact List.mem_filter.mpr ⟨hx, decide_eq_true (.inl hfresh)⟩

/-- And any of them may be what it gets. -/
theorem target_of_open (localNode : Option NodeId) (hrequired : r.requiredAcknowledgements = 1)
    (hx : x ∈ r.openDevices t) :
    ∃ plan target, place (preferring x) localNode r t = .ok plan ∧ plan.targets.head? = some target ∧
      target.slot = (x.1.nodeId, x.2.id) := by
  set c := candidate (preferring x) r t x.1 x.2 with hc
  have heligible : x ∈ r.eligible t := List.mem_of_mem_filter hx
  have hopen : c.domain ∉ r.occupied t ∨ r.freeDomains t = [] ∧ r.strict t = false :=
    of_decide_eq_true (List.mem_filter.mp hx).2
  obtain ⟨rest, hcand⟩ := candidates_preferring hids heligible
  have hlength := length_firsts_candidates (r := r) (t := t) (preferring x)
  have hchosen : chosen (preferring x) r t = [c] := by
    rw [chosen_eq (nodup_candidates _ r hids), hone, spreadRanking]
    rcases hopen with hfresh | ⟨hnone, -⟩
    · rw [hcand, firsts, if_neg hfresh]
      rfl
    · rw [hnone, List.length_nil, List.length_eq_zero_iff] at hlength
      rw [hlength, hcand]
      rfl
  have hdesired : 1 ≤ r.desiredReplicas.toNat := by
    rw [ObjectPlacementRequest.wanted] at hone
    omega
  have hok : ¬ Refuses (preferring x) r t := by
    rintro (h | h | h | h | ⟨hstrict, h⟩ | h)
    · rw [h] at hdesired; cases hdesired
    · rw [hrequired] at h; cases h
    · rw [hrequired] at h
      exact absurd (UInt8.lt_iff_toNat_lt.mp h) (Nat.not_lt.mpr hdesired)
    · rw [hcand] at h; cases h
    · rcases hopen with hfresh | ⟨-, hloose⟩
      · rw [firstPass_fst, hone, hcand, firsts, if_neg hfresh] at h
        simp at h
      · rw [hstrict] at hloose; cases hloose
    · rw [hchosen, hrequired, List.length_singleton] at h
      exact absurd h (by simp)
  cases hplan : place (preferring x) localNode r t with
  | error e => exact absurd (place_error_iff.mp ⟨e, hplan⟩) hok
  | ok plan =>
    have htargets : plan.targets = [c.intoTarget localNode] := by
      rw [(place_ok hplan).2.2.2, hchosen]
      exact List.perm_singleton.mp (localFirst_perm ..)
    exact ⟨plan, c.intoTarget localNode, rfl, by rw [htargets]; rfl, rfl⟩

end Target

section Moves

variable {score : Score} {localNode : Option NodeId} {t : ClusterTopology} {share : Nat} {moves : List RebalanceMove}
  {p : PayloadPlacement} {source : Replica} {m : RebalanceMove}

/-- The inversion of one planned move. -/
theorem planMove_eq_some (h : planMove score localNode t share moves p = some m) :
    ∃ source, p.replicas.find? (fun r => decide (r.deviceId ∈ t.donors)) = some source ∧ ∃ plan target,
      source.state.usableAsSource = true ∧
      place score localNode (moveRequest t share moves p source) t = .ok plan ∧ plan.targets.head? = some target ∧
      m = ⟨p.objectId, source.nodeId, source.deviceId, target.nodeId, target.deviceId, p.size⟩ := by
  unfold planMove at h
  split at h
  · cases h
  · rename_i source hfind
    split_ifs at h with hstate
    split at h
    · cases h
    · rename_i plan hplan
      obtain ⟨target, htarget, rfl⟩ := Option.map_eq_some_iff.mp h
      exact ⟨source, hfind, plan, target, hstate, hplan, htarget, rfl⟩

section Request

variable (hreplicas : (p.replicas.map (·.deviceId)).Nodup) (hsource : source ∈ p.replicas)

include hreplicas hsource

/-- The replicas are the source and those that stay. -/
theorem replicas_perm : p.replicas.Perm
    (source :: p.replicas.filter fun r => decide (r.deviceId ≠ source.deviceId)) := by
  have hother : (p.replicas.filter fun r => decide (r.deviceId ≠ source.deviceId)) = p.replicas.erase source := by
    rw [hreplicas.of_map.erase_eq_filter]
    refine List.filter_congr fun r hr => ?_
    have hid : r.deviceId = source.deviceId ↔ r = source :=
      ⟨List.inj_on_of_nodup_map hreplicas hr hsource, fun e => e ▸ rfl⟩
    simp [hid, bne, beq_eq_decide]
  rw [hother]
  exact List.perm_cons_erase hsource

omit hsource in
theorem existingTargets_moveRequest : (moveRequest t share moves p source).existingTargets =
    (p.replicas.filter fun r => decide (r.deviceId ≠ source.deviceId)).map (·.slot) := by
  refine List.Nodup.dedup (List.Nodup.of_map Prod.snd ?_)
  rw [List.map_map]
  exact hreplicas.sublist (List.filter_sublist.map _)

/-- One replica is asked for. -/
theorem wanted_moveRequest :
    (moveRequest t share moves p source).wanted = if p.replicas.length ≤ 255 then 1 else 0 := by
  have hlen := (replicas_perm hreplicas hsource).length_eq
  rw [List.length_cons] at hlen
  have hdesired : (moveRequest t share moves p source).desiredReplicas.toNat = min p.replicas.length 255 :=
    Nat.mod_eq_of_lt (by omega)
  rw [ObjectPlacementRequest.wanted, ObjectPlacementRequest.existingCount, existingTargets_moveRequest hreplicas,
    List.length_map, hdesired]
  have hnone : (moveRequest t share moves p source).existingNodes.length = 0 := rfl
  split_ifs <;> omega

/-- The destination is a device that is open to the replica. -/
theorem target_moveRequest {plan : PlacementPlan} {target : PlacementTarget} (hids : t.deviceIds.Nodup)
    (hplan : place score localNode (moveRequest t share moves p source) t = .ok plan)
    (htarget : plan.targets.head? = some target) :
    ∃ x ∈ (moveRequest t share moves p source).openDevices t, target.slot = (x.1.nodeId, x.2.id) := by
  refine open_of_target hids ?_ hplan htarget
  rw [wanted_moveRequest hreplicas hsource]
  refine if_pos (not_lt.mp fun hlong => ?_)
  have hlength : (chosen score (moveRequest t share moves p source) t).length = _ := length_chosen hids
  rw [wanted_moveRequest hreplicas hsource, if_neg (by omega), Nat.zero_min, List.length_eq_zero_iff] at hlength
  have hnil : plan.targets = [] := by
    rw [(place_ok hplan).2.2.2, hlength]
    exact (localFirst_perm ..).eq_nil
  rw [hnil] at htarget
  cases htarget

omit hsource in
theorem mem_occupied_moveRequest {d : String} : d ∈ (moveRequest t share moves p source).occupied t ↔
    d ∈ t.otherDomains t.config.failureDomainScope p source := by
  rw [ObjectPlacementRequest.occupied, existingTargets_moveRequest hreplicas, List.mem_dedup, List.mem_append,
    or_iff_left (by simp [moveRequest, ObjectPlacementRequest.new])]
  rfl

/-- After the move, the target is where the source was. -/
theorem apply_perm (hm : m.source = source.slot) : (m.apply (p.replicas.map (·.slot))).Perm
    (m.target :: (p.replicas.filter fun r => decide (r.deviceId ≠ source.deviceId)).map (·.slot)) := by
  refine (((replicas_perm hreplicas hsource).map _).map _).trans (.of_eq ?_)
  rw [List.map_cons, List.map_cons, if_pos hm.symm, List.map_map]
  congr 1
  refine List.map_congr_left fun r hr => if_neg fun e => ?_
  have hother : r.deviceId ≠ source.deviceId := of_decide_eq_true (List.mem_filter.mp hr).2
  exact hother (congrArg Prod.snd (e.trans hm))

/-- The payload keeps its failure domains when the target is in a new one, or the source was not alone in its own. -/
theorem domainCount_apply_iff (hm : m.source = source.slot) (scope : FailureDomainScope) {d : String}
    (hd : t.domainAt scope m.target = some d) :
    t.domainCount scope (p.replicas.map (·.slot)) ≤ t.domainCount scope (m.apply (p.replicas.map (·.slot))) ↔
      d ∉ t.otherDomains scope p source ∨ ∀ d' ∈ t.domainAt scope source.slot, d' ∈ t.otherDomains scope p source := by
  have hbefore : ((p.replicas.map (·.slot)).filterMap (t.domainAt scope)).toFinset =
      (t.domainAt scope source.slot).toFinset ∪ (t.otherDomains scope p source).toFinset := by
    ext d'
    simp only [List.mem_toFinset, Finset.mem_union, List.mem_filterMap, ClusterTopology.otherDomains,
      ((replicas_perm hreplicas hsource).map (·.slot)).mem_iff, List.map_cons, List.mem_cons, exists_eq_or_imp,
      Option.mem_toFinset, Option.mem_def]
  have hafter : ((m.apply (p.replicas.map (·.slot))).filterMap (t.domainAt scope)).toFinset =
      insert d (t.otherDomains scope p source).toFinset := by
    ext d'
    simp only [List.mem_toFinset, Finset.mem_insert, List.mem_filterMap, (apply_perm hreplicas hsource hm).mem_iff,
      ClusterTopology.otherDomains, List.mem_cons, exists_eq_or_imp, hd, Option.some.injEq, eq_comm]
  rw [ClusterTopology.domainCount, ClusterTopology.domainCount, ← List.card_toFinset, ← List.card_toFinset,
    hbefore, hafter]
  simp only [← List.mem_toFinset (l := t.otherDomains scope p source)]
  set occ := (t.otherDomains scope p source).toFinset
  by_cases hin : d ∈ occ
  · rw [Finset.insert_eq_of_mem hin, or_iff_right (not_not_intro hin)]
    constructor
    · intro hle d' hd'
      rw [Finset.eq_of_subset_of_card_le Finset.subset_union_right hle]
      exact Finset.mem_union_left _ (Option.mem_toFinset.mpr hd')
    · intro hsub
      exact Finset.card_le_card (Finset.union_subset (fun d' hd' => hsub d' (Option.mem_toFinset.mp hd')) subset_rfl)
  · refine iff_of_true ?_ (.inl hin)
    rw [Finset.card_insert_of_notMem hin]
    have hone : (t.domainAt scope source.slot).toFinset.card ≤ 1 := by cases t.domainAt scope source.slot <;> simp
    have := Finset.card_union_le (t.domainAt scope source.slot).toFinset occ
    omega

end Request

theorem domainAt_owned (hnodes : (t.nodes.map (·.nodeId)).Nodup) {x : NodeRecord × DeviceRecord} (hx : x ∈ t.owned)
    (scope : FailureDomainScope) : t.domainAt scope (x.1.nodeId, x.2.id) = some (placementDomain x.1 x.2.id scope) := by
  rw [ClusterTopology.domainAt, ClusterTopology.node, (find?_node hnodes).mpr ⟨(mem_owned.mp hx).1, rfl⟩,
    Option.map_some]

/-- A move keeps what the class asks for exactly if its device suits. -/
theorem keeps_iff_suits (hids : t.deviceIds.Nodup) (hnodes : (t.nodes.map (·.nodeId)).Nodup)
    (hreplicas : (p.replicas.map (·.deviceId)).Nodup) (hsource : source ∈ p.replicas) (hm : m.source = source.slot)
    {x : NodeRecord × DeviceRecord} (hx : x ∈ t.owned) (hto : m.target = (x.1.nodeId, x.2.id)) {policy : StoragePolicy}
    (hclass : x.2.storageClass = policy.storageClass) : policy.Keeps t p m ↔ policy.Suits t p source x := by
  have hiff : policy.Suits t p source x ↔ policy.acceptsDevice x.2 = true ∧ policy.fitsReserve t p x.2 = true ∧
      (policy.strictFailureDomains = true → t.domainCount policy.failureDomain (p.replicas.map (·.slot)) ≤
        t.domainCount policy.failureDomain (m.apply (p.replicas.map (·.slot)))) := by
    rw [domainCount_apply_iff hreplicas hsource hm _ (hto ▸ domainAt_owned hnodes hx _)]
    simp [StoragePolicy.Suits, StoragePolicy.acceptsDevice, hclass]
  rw [hiff]
  refine ⟨fun ⟨y, hy, hyto, h⟩ => ?_, fun h => ⟨x, hx, hto, h⟩⟩
  have hnodup : (t.owned.map fun x => x.2.id).Nodup := by
    rw [ClusterTopology.deviceIds, ClusterTopology.drives, List.map_map] at hids
    exact hids
  rwa [List.inj_on_of_nodup_map hnodup hx hy (congrArg Prod.snd (hto.symm.trans hyto))]

/-- A device that is open is in a free domain exactly if there is one. -/
theorem fresh_iff_of_open {r : ObjectPlacementRequest} {x : NodeRecord × DeviceRecord} (hx : x ∈ r.openDevices t) :
    placementDomain x.1 x.2.id (r.scope t) ∉ r.occupied t ↔ r.freeDomains t ≠ [] := by
  obtain ⟨hx, hopen⟩ := List.mem_filter.mp hx
  refine ⟨fun hfresh hnil => ?_, fun hfree => (of_decide_eq_true hopen).resolve_right fun h => hfree h.1⟩
  have hmem : placementDomain x.1 x.2.id (r.scope t) ∈ r.freeDomains t :=
    List.mem_dedup.mpr (List.mem_filter.mpr ⟨List.mem_map_of_mem hx, decide_eq_true hfresh⟩)
  rw [hnil] at hmem
  cases hmem

/-- A device that a move request admits is a recipient that has not had its share. -/
theorem recipient_of_eligible {x : NodeRecord × DeviceRecord}
    (hx : x ∈ (moveRequest t share moves p source).eligible t) :
    x.1 ∈ t.nodes ∧ x.2 ∈ x.1.devices ∧ x.1.state.acceptsNewReplicas = true ∧ x.2.state.acceptsNewPlacements = true ∧
      x.2.storageClass = p.storageClass ∧ x.2.id ≠ source.deviceId ∧
      (x.1.nodeId, x.2.id) ∉ (moveRequest t share moves p source).existingTargets ∧
      moves.countP (·.targetDevice = x.2.id) < share := by
  rw [eligible_eq, List.mem_filter, mem_owned] at hx
  simp only [ObjectPlacementRequest.admits, ObjectPlacementRequest.bars, Bool.and_eq_true, Bool.not_eq_true',
    Bool.or_eq_false_iff, decide_eq_false_iff_not] at hx
  obtain ⟨⟨hn, hd⟩, ⟨hstate, hclass, hactive⟩, -, ⟨⟨-, -⟩, hdevice⟩, htarget⟩ := hx
  have hhealthy : x.1.state = .healthy := by
    cases hs : x.1.state <;> rw [hs] at hstate <;> first | rfl | cases hstate
  have hpart : x.2.id ∈ t.participants.map (·.2.id) :=
    List.mem_map_of_mem (List.mem_filter.mpr ⟨mem_owned.mpr ⟨hn, hd⟩, decide_eq_true hhealthy⟩)
  have hopen : ¬ (x.2.id = source.deviceId ∨ x.2.id ∉ t.recipients ∨
    share ≤ moves.countP (·.targetDevice = x.2.id)) := by
    intro hbarred
    refine hdevice (List.mem_filter.mpr ⟨hpart, ?_⟩)
    simpa [or_assoc] using hbarred
  push Not at hopen
  exact ⟨hn, hd, hstate, hactive, of_decide_eq_true hclass, hopen.1, htarget, hopen.2.2⟩

/-- What the loop adds: at most one move of every payload, each after those before it. -/
theorem planMoves_spec (maximumMoves : Nat) (payloads : List PayloadPlacement) (moves : List RebalanceMove) :
    ∃ tail, planMoves score localNode t share maximumMoves payloads moves = moves ++ tail ∧
      (tail.map (·.objectId)).Sublist (payloads.map (·.objectId)) ∧
      (moves.length ≤ maximumMoves → (moves ++ tail).length ≤ maximumMoves) ∧
      ∀ before m after, tail = before ++ m :: after →
        ∃ p ∈ payloads, planMove score localNode t share (moves ++ before) p = some m := by
  induction payloads generalizing moves with
  | nil => exact ⟨[], by simp [planMoves], .slnil, by simp, by simp⟩
  | cons p rest ih =>
    rw [planMoves]
    split_ifs with hfull
    · exact ⟨[], by simp, by simp, by simp, by simp⟩
    · obtain ⟨tail, htail, hobjects, hlen, hstep⟩ := ih (moves ++ (planMove score localNode t share moves p).toList)
      cases hm : planMove score localNode t share moves p with
      | none =>
        simp only [hm, Option.toList_none, List.append_nil] at htail hlen hstep ⊢
        refine ⟨tail, htail, hobjects.cons _, hlen, fun before m after e => ?_⟩
        obtain ⟨q, hq, h⟩ := hstep before m after e
        exact ⟨q, List.mem_cons_of_mem _ hq, h⟩
      | some m =>
        have hid : m.objectId = p.objectId := by
          obtain ⟨_, _, _, _, _, _, _, rfl⟩ := planMove_eq_some hm
          rfl
        simp only [hm, Option.toList_some, List.append_assoc, List.singleton_append] at htail hlen hstep ⊢
        refine ⟨m :: tail, htail, ?_, fun _ => hlen (by simp; omega), fun before m' after e => ?_⟩
        · rw [List.map_cons, List.map_cons, hid]
          exact hobjects.cons_cons _
        · rcases List.cons_eq_append_iff.mp e with ⟨rfl, hcons⟩ | ⟨before', rfl, htail'⟩
          · obtain ⟨rfl, -⟩ := List.cons.inj hcons
            exact ⟨p, List.mem_cons_self, by simpa using hm⟩
          · obtain ⟨q, hq, h⟩ := hstep before' m' after htail'
            exact ⟨q, List.mem_cons_of_mem _ hq, h⟩

/-- What the loop does from the start. -/
theorem planRebalance_spec (score : Score) (localNode : Option NodeId) (t : ClusterTopology)
    (payloads : List PayloadPlacement) (maximumMoves : Nat) :
    ((planRebalance score localNode t payloads maximumMoves).map (·.objectId)).Sublist (payloads.map (·.objectId)) ∧
      (planRebalance score localNode t payloads maximumMoves).length ≤ maximumMoves ∧
      ∀ before m after, planRebalance score localNode t payloads maximumMoves = before ++ m :: after →
        ∃ p ∈ payloads, planMove score localNode t (t.fairShare payloads.length) before p = some m := by
  unfold planRebalance
  split_ifs
  · exact ⟨by simp, by simp, by simp⟩
  · obtain ⟨tail, htail, hsub, hlen, hstep⟩ := planMoves_spec maximumMoves payloads []
    rw [htail]
    exact ⟨hsub, hlen (Nat.zero_le _), hstep⟩

omit localNode t share p source m in
/-- A counter that every item finds below the limit ends within it. -/
theorem countP_le_of_lt {k : Nat} (hk : ∀ before m after, moves = before ++ m :: after →
    before.countP (·.targetDevice = m.targetDevice) < k) (id : DeviceId) : moves.countP (·.targetDevice = id) ≤ k := by
  induction moves using List.reverseRecOn with
  | nil => simp
  | append_singleton moves m ih =>
    have hle := ih fun before m' after e => hk before m' (after ++ [m]) (by rw [e]; simp)
    have hlt := hk moves m [] rfl
    rw [List.countP_append, List.countP_singleton]
    split_ifs with h
    · rw [of_decide_eq_true h] at hlt
      exact hlt
    · exact hle

section Class

variable {policy : StoragePolicy}

/-- Whichever way the scores fall, the class is kept exactly if every device that is open suits it. -/
theorem forall_score_keeps_iff (localNode : Option NodeId) (hids : t.deviceIds.Nodup)
    (hnodes : (t.nodes.map (·.nodeId)).Nodup) (hreplicas : (p.replicas.map (·.deviceId)).Nodup)
    (hlength : p.replicas.length ≤ 255) (hpolicy : policy.storageClass = p.storageClass) (share : Nat)
    (moves : List RebalanceMove) :
    (∀ score m, planMove score localNode t share moves p = some m → policy.Keeps t p m) ↔
      ∀ source, p.replicas.find? (fun r => decide (r.deviceId ∈ t.donors)) = some source →
        source.state.usableAsSource = true →
        ∀ x ∈ (moveRequest t share moves p source).openDevices t, policy.Suits t p source x := by
  have hopen : ∀ {source x}, x ∈ (moveRequest t share moves p source).openDevices t →
      x ∈ t.owned ∧ x.2.storageClass = policy.storageClass := fun hx => by
    obtain ⟨hn, hd, -, -, hclass, -⟩ := recipient_of_eligible (List.mem_of_mem_filter hx)
    exact ⟨mem_owned.mpr ⟨hn, hd⟩, hclass.trans hpolicy.symm⟩
  constructor
  · intro hkeeps source hfind hstate x hx
    have hsource : source ∈ p.replicas := List.mem_of_find?_eq_some hfind
    have hone : (moveRequest t share moves p source).wanted = 1 := by
      rw [wanted_moveRequest hreplicas hsource, if_pos hlength]
    obtain ⟨plan, target, hplan, htarget, hslot⟩ := target_of_open hids hone localNode rfl hx
    let m : RebalanceMove := ⟨p.objectId, source.nodeId, source.deviceId, target.nodeId, target.deviceId, p.size⟩
    refine (keeps_iff_suits (m := m) hids hnodes hreplicas hsource rfl (hopen hx).1 hslot (hopen hx).2).mp
      (hkeeps (preferring x) m ?_)
    simp only [planMove, hfind, hstate, if_true, hplan, htarget, Option.map_some, m]
  · intro hsuits score m h
    obtain ⟨source, hfind, plan, target, hstate, hplan, htarget, hm⟩ := planMove_eq_some h
    have hsource : source ∈ p.replicas := List.mem_of_find?_eq_some hfind
    obtain ⟨x, hx, hslot⟩ := target_moveRequest hreplicas hsource hids hplan htarget
    exact (keeps_iff_suits (m := m) hids hnodes hreplicas hsource (hm ▸ rfl) (hopen hx).1 (hm ▸ hslot) (hopen hx).2).mpr
      (hsuits source hfind hstate x hx)

end Class

end Moves

namespace Racks

/-- A device that is nine tenths full. -/
def fullDrive (id : Nat) : DeviceRecord :=
  { drive id with kind := .nvme, capacity := ⟨4294967296, 4294967296, 3865470566, 0, 429496730⟩ }

/-- Two full nodes, in racks `a` and `b`, and an empty one. -/
def unbalanced (rack : String) : ClusterTopology :=
  ⟨.ofNat 1, ClusterConfig.default, 1,
    [{ node 1 "a" with devices := [fullDrive 1] }, { node 2 "b" with devices := [fullDrive 2] }, node 3 rack]⟩

/-- A payload on both full nodes. -/
def payload : PayloadPlacement :=
  ⟨.ofNat 7, 10, ⟨.sha256, List.replicate 32 6, by decide⟩, 2, defaultStorageClass, 1,
    [⟨.ofNat 1, .ofNat 11, .healthy, "", 10, none, .epoch, none, 1⟩,
      ⟨.ofNat 2, .ofNat 12, .healthy, "", 10, none, .epoch, none, 1⟩],
    .epoch, .epoch, by decide⟩

/-- The policy of a class of fast devices in separate racks. -/
def fast : StoragePolicy := ⟨defaultStorageClass, none, [.nvme], .replication 2, .rack, true, 0⟩

/-- The policy of a class of any devices in separate racks, a tenth of each kept free. -/
def separate : StoragePolicy := { fast with allowedKinds := [], minimumFreeSpacePercent := 10 }

end Racks

end RecordStore.Cluster

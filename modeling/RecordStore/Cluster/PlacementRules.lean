import RecordStore.Cluster.Choice
import RecordStore.Cluster.Nodes

/-!
# Cluster.PlacementRules — which plans `place` makes

A plan is valid and as spread as its topology permits; it is the same on every node and for every order of the
topology; and one more device moves nothing but what goes to it.  Devices are told apart by their identifiers.
-/

namespace RecordStore.Cluster

open RecordStore.Lib RecordStore.Core Tx

/-! ## Plans -/

/-- The target is in a failure domain with a replica that exists, or with another target. -/
def PlacementTarget.Shares (occupied : List String) (targets : List PlacementTarget) (x : PlacementTarget) : Prop :=
  x.domain ∈ occupied ∨ ∃ y ∈ targets, y.deviceId ≠ x.deviceId ∧ y.domain = x.domain

namespace ObjectPlacementRequest

variable (r : ObjectPlacementRequest) (t : ClusterTopology)

/-- The domains of the devices that may be taken. -/
def eligibleDomains : List String := (r.eligible t).map fun y => placementDomain y.1 y.2.id (r.scope t)

/-- The domains of which a device may be taken and that hold no replica yet. -/
def freeDomains : List String := ((r.eligibleDomains t).filter (· ∉ r.occupied t)).dedup

/-- How many devices may be taken: under strict placement, one of every free domain. -/
def permitted : Nat := if r.strict t then (r.freeDomains t).length else (r.eligible t).length

end ObjectPlacementRequest

theorem localFirst_perm (localNode : Option NodeId) (targets : List PlacementTarget) :
    (localFirst localNode targets).Perm targets := by
  unfold localFirst
  split
  · rename_i i _
    have e : targets.take i ++ (targets.drop i).take 1 ++ targets.drop (i + 1) = targets := by
      rw [← List.take_add, List.take_append_drop]
    exact (List.perm_append_comm.append_right _).trans (.of_eq e)
  · exact .refl _

section Plans

variable {score : Score} {localNode : Option NodeId}
  {r : ObjectPlacementRequest} {t : ClusterTopology}

theorem mem_eligibleDomains (score : Score) {d : String} :
    d ∈ r.eligibleDomains t ↔ ∃ c ∈ candidates score r t, c.domain = d := by
  simp only [ObjectPlacementRequest.eligibleDomains, candidates_perm.mem_iff, List.mem_map, exists_exists_and_eq_and]
  rfl

theorem length_firsts_candidates (score : Score) :
    (firsts Candidate.domain (r.occupied t) (candidates score r t)).length = (r.freeDomains t).length := by
  rw [length_firsts, ObjectPlacementRequest.freeDomains, ← List.card_toFinset]
  congr 1
  ext d
  simp only [Finset.mem_sdiff, List.mem_toFinset, List.mem_filter, decide_eq_true_eq, List.mem_map,
    mem_eligibleDomains score]

/-- The requests `place` refuses. -/
def Refuses (score : Score) (r : ObjectPlacementRequest) (t : ClusterTopology) : Prop :=
  r.desiredReplicas = 0 ∨ r.requiredAcknowledgements = 0 ∨ r.requiredAcknowledgements > r.desiredReplicas ∨
    candidates score r t = [] ∨ (r.strict t = true ∧ (firstPass score r t).1.length < r.wanted) ∨
    (chosen score r t).length + r.existingCount < r.requiredAcknowledgements.toNat

theorem place_error_iff : (∃ e, place score localNode r t = .error e) ↔ Refuses score r t := by
  unfold place Refuses
  split_ifs with h₁ h₂ h₃ h₄ h₅
  · simp [h₁]
  · rcases h₂ with h₂ | h₂ <;> simp [h₂]
  · simp [List.isEmpty_iff.mp h₃]
  · simp [h₄.1, h₄.2]
  · simp [h₅]
  · rw [List.isEmpty_iff] at h₃
    simp only [not_or, not_and] at h₂ h₄
    simp [h₁, h₂, h₃, h₅]
    exact fun hs => not_lt.mp fun hlt => h₄ hlt hs

theorem place_reused {plan : PlacementPlan} (h : place score localNode r t = .ok plan) :
    plan.failureDomainsReused = decide ((firstPass score r t).1.length < (chosen score r t).length) ∧
      ¬ Refuses score r t := by
  refine ⟨?_, fun hr => ?_⟩
  · unfold place at h
    split_ifs at h
    obtain rfl := Except.ok.inj h
    rfl
  · obtain ⟨e, he⟩ := place_error_iff.mpr hr
    rw [h] at he
    cases he

/-- The first pass is short of what is wanted exactly when there are too few free domains. -/
theorem short_iff : (firstPass score r t).1.length < r.wanted ↔ (r.freeDomains t).length < r.wanted := by
  rw [firstPass_fst, List.length_take, length_firsts_candidates]
  omega

theorem mem_slots {plan : PlacementPlan} (h : place score localNode r t = .ok plan) {y : Slot} :
    y ∈ plan.targets.map (·.slot) ↔ ∃ c ∈ chosen score r t, (c.nodeId, c.deviceId) = y := by
  obtain ⟨-, -, -, htargets⟩ := place_ok h
  rw [htargets, ((localFirst_perm ..).map _).mem_iff, List.map_map, List.mem_map]
  rfl

variable (hids : t.deviceIds.Nodup)

include hids

theorem length_chosen : (chosen score r t).length = min r.wanted (r.eligible t).length := by
  have hnodup := nodup_candidates score r hids
  rw [chosen_eq hnodup, List.length_take, (spreadRanking_perm hnodup.of_map).length_eq, candidates_perm.length_eq,
    List.length_map]

theorem reused_iff_shares (localNode : Option NodeId) :
    (firstPass score r t).1.length < (chosen score r t).length ↔
      ∃ x ∈ (chosen score r t).map (Candidate.intoTarget localNode),
        x.Shares (r.occupied t) ((chosen score r t).map (Candidate.intoTarget localNode)) := by
  have hnodup := nodup_candidates score r hids
  rw [firstPass_fst, chosen_eq hnodup, length_firsts_lt_iff]
  simp only [List.mem_map, exists_exists_and_eq_and, PlacementTarget.Shares, Candidate.intoTarget]
  refine exists_congr fun a => and_congr_right fun ha =>
    or_congr_right (exists_congr fun b => and_congr_right fun hb => ?_)
  have hcand : ∀ {c}, c ∈ (spreadRanking Candidate.domain (r.occupied t) (candidates score r t)).take r.wanted →
      c ∈ candidates score r t := fun hc => (spreadRanking_perm hnodup.of_map).mem_iff.mp (List.mem_of_mem_take hc)
  exact and_congr_left fun _ => not_congr ⟨fun e => e ▸ rfl, List.inj_on_of_nodup_map hnodup (hcand hb) (hcand ha)⟩

/-- What is chosen is admitted. -/
theorem eligible_of_chosen {c : Candidate} (hc : c ∈ chosen score r t) :
    ∃ x ∈ r.eligible t, candidate score r t x.1 x.2 = c := by
  have hnodup := nodup_candidates score r hids
  rw [chosen_eq hnodup] at hc
  exact List.mem_map.mp (candidates_perm.mem_iff.mp
    ((spreadRanking_perm hnodup.of_map).mem_iff.mp (List.mem_of_mem_take hc)))

theorem nodup_targets {plan : PlacementPlan} (h : place score localNode r t = .ok plan) :
    (plan.targets.map (·.deviceId)).Nodup := by
  have hnodup := nodup_candidates score r hids
  rw [(place_ok h).2.2.2, ((localFirst_perm ..).map _).nodup_iff, List.map_map, chosen_eq hnodup]
  exact (((spreadRanking_perm hnodup.of_map).map Candidate.deviceId).nodup_iff.mpr hnodup).sublist
    ((List.take_sublist ..).map _)

omit hids in
theorem shares_congr {occupied : List String} {targets targets' : List PlacementTarget} (h : targets.Perm targets') :
    (∃ x ∈ targets, x.Shares occupied targets) ↔ ∃ x ∈ targets', x.Shares occupied targets' := by
  simp only [PlacementTarget.Shares, h.mem_iff]

end Plans

/-- What a plan is, and when there is none. -/
theorem place_spreads (score : Score) (localNode : Option NodeId)
    (r : ObjectPlacementRequest) (t : ClusterTopology) (hids : t.deviceIds.Nodup) :
    (∀ plan, place score localNode r t = .ok plan →
      (plan.targets.map (·.deviceId)).Nodup ∧
      (∀ x ∈ plan.targets, ∃ n ∈ t.nodes, ∃ d ∈ n.devices, x.slot = (n.nodeId, d.id) ∧
        x.domain = placementDomain n d.id (r.scope t) ∧ n.state.acceptsNewReplicas = true ∧
        d.state.acceptsNewPlacements = true ∧ r.eligibleClass d = true ∧ r.hasRoom t d = true ∧
        r.bars (n.nodeId, d.id) = false) ∧
      (∃ order : List PlacementTarget, order.Perm plan.targets ∧ ∀ before x after, order = before ++ x :: after →
        x.domain ∈ r.occupied t ++ before.map (·.domain) →
        ∀ d ∈ r.eligibleDomains t, d ∈ r.occupied t ++ before.map (·.domain)) ∧
      (plan.failureDomainsReused = true ↔ ∃ x ∈ plan.targets, x.Shares (r.occupied t) plan.targets) ∧
      (r.strict t = true → ¬ ∃ x ∈ plan.targets, x.Shares (r.occupied t) plan.targets) ∧
      plan.targets.length = min r.wanted (r.permitted t)) ∧
    ((∃ e, place score localNode r t = .error e) ↔
      r.desiredReplicas = 0 ∨ r.requiredAcknowledgements = 0 ∨ r.requiredAcknowledgements > r.desiredReplicas ∨
        r.eligible t = [] ∨ (r.strict t = true ∧ (r.freeDomains t).length < r.wanted) ∨
        min r.wanted (r.permitted t) + r.existingCount < r.requiredAcknowledgements.toNat) := by
  have hnodup := nodup_candidates score r hids
  have hnone : candidates score r t = [] ↔ r.eligible t = [] := by
    rw [← List.length_eq_zero_iff, candidates_perm.length_eq, List.length_map, List.length_eq_zero_iff]
  have hfree : (r.freeDomains t).length ≤ (r.eligible t).length := by
    have := (firsts_sublist (f := Candidate.domain) (r.occupied t) (candidates score r t)).length_le
    rwa [length_firsts_candidates, candidates_perm.length_eq, List.length_map] at this
  constructor
  · intro plan h
    obtain ⟨-, -, -, htargets⟩ := place_ok h
    obtain ⟨hreused, hok⟩ := place_reused h
    have hperm : plan.targets.Perm ((chosen score r t).map (Candidate.intoTarget localNode)) :=
      htargets ▸ localFirst_perm ..
    have hshares := (reused_iff_shares hids localNode).trans
      (shares_congr hperm).symm
    refine ⟨?_, ?_, ⟨_, hperm.symm, ?_⟩, ?_, ?_, ?_⟩
    · exact nodup_targets hids h
    · intro x hx
      obtain ⟨c, hc, rfl⟩ := List.mem_map.mp (hperm.mem_iff.mp hx)
      obtain ⟨⟨n, d⟩, hy, rfl⟩ := eligible_of_chosen hids hc
      rw [eligible_eq, List.mem_filter, mem_owned] at hy
      simp only [ObjectPlacementRequest.admits, Bool.and_eq_true, Bool.not_eq_true'] at hy
      obtain ⟨⟨hn, hd⟩, ⟨hstate, hclass, hactive⟩, hroom, hbars⟩ := hy
      exact ⟨n, hn, d, hd, rfl, rfl, hstate, hactive, hclass, hroom, hbars⟩
    · intro before x after e hx d hd
      obtain ⟨b, rest, hsplit, rfl, hrest⟩ := List.map_eq_append_iff.mp e
      obtain ⟨c, a, rfl, rfl, -⟩ := List.map_eq_cons_iff.mp hrest
      obtain ⟨c', hc', rfl⟩ := (mem_eligibleDomains score).mp hd
      rw [chosen_eq hnodup] at hsplit
      rw [List.map_map] at hx ⊢
      exact classes_taken_of_shared hsplit hx c' hc'
    · rw [hreused, decide_eq_true_eq, hshares]
    · intro hstrict hshare
      have hlt := hshares.mpr hshare
      have hshort : ¬ (firstPass score r t).1.length < r.wanted := fun hs => hok (by simp [Refuses, hstrict, hs])
      rw [length_chosen hids] at hlt
      omega
    · rw [hperm.length_eq, List.length_map, length_chosen hids, ObjectPlacementRequest.permitted]
      split_ifs with hstrict
      · have hshort : ¬ (firstPass score r t).1.length < r.wanted := fun hs => hok (by simp [Refuses, hstrict, hs])
        rw [short_iff] at hshort
        omega
      · rfl
  · rw [place_error_iff, Refuses, hnone, short_iff, length_chosen hids, ObjectPlacementRequest.permitted]
    split_ifs with hstrict
    · refine or_congr Iff.rfl (or_congr Iff.rfl (or_congr Iff.rfl (or_congr Iff.rfl ?_)))
      simp only [hstrict, true_and]
      omega
    · rfl

/-! ### Racks -/

namespace Racks

/-- A large device. -/
def drive (id : Nat) : DeviceRecord :=
  { DeviceRecord.legacyDirectory (.ofNat id) defaultStorageClass ⟨4294967296, 4294967296, 0, 0, 4294967296⟩ with
    id := .ofNat (id + 10) }

/-- A healthy node of a rack, with one device. -/
def node (id : Nat) (rack : String) : NodeRecord :=
  { NodeRecord.joining ⟨.ofNat id, "", defaultStorageClass, [("rack", rack)], ⟨0, 0, 0, 0⟩,
    [drive id]⟩ (UInt64.ofNat id) true .epoch with
    state := .healthy }

/-- Three nodes in two racks. -/
def topology (strict : Bool) : ClusterTopology :=
  ⟨.ofNat 1, { ClusterConfig.default with strictFailureDomains := strict }, 1, [node 1 "a", node 2 "a", node 3 "b"]⟩

/-- The same, the other way round. -/
def backwards : ClusterTopology := { topology false with nodes := (topology false).nodes.reverse }

def request : ObjectPlacementRequest := .new (.ofNat 7) 3 2 defaultStorageClass

/-- Devices are taken in the order of their identifiers. -/
def even (_ : ObjectId) (_ : StorageClass) (_ : NodeId) (_ : DeviceRecord) : Nat := 0

end Racks

/-- A third replica reuses a rack. -/
theorem place_spreads_racks : ∃ plan, place Racks.even none Racks.request (Racks.topology false) = .ok plan ∧
    (plan.targets.map (·.deviceId)).Nodup ∧ plan.targets.length = 3 ∧ plan.failureDomainsReused = true := by
  obtain ⟨plan, h, hreused⟩ : ∃ plan, place Racks.even none Racks.request (Racks.topology false) = .ok plan ∧
      plan.failureDomainsReused = true := ⟨_, rfl, by decide +kernel⟩
  obtain ⟨hnodup, -, -, -, -, hlen⟩ := (place_spreads Racks.even none Racks.request (Racks.topology false)
    (by decide +kernel)).1 plan h
  exact ⟨plan, h, hnodup, hlen.trans (by decide +kernel), hreused⟩

/-- Two acknowledgements are asked for and two racks are free, but three replicas are wanted. -/
theorem strict_placement_refused :
    place Racks.even none Racks.request (Racks.topology true) = .error (.insufficientFailureDomains .rack 3 4) ∧
      Racks.request.requiredAcknowledgements.toNat ≤ Racks.request.permitted (Racks.topology true) +
        Racks.request.existingCount := by
  decide +kernel

/-! ## One placement on every node -/

/-- The same nodes with the same devices, in any order. -/
structure ClusterTopology.Rearranges (t t' : ClusterTopology) : Prop where
  config : t'.config = t.config
  epoch : t'.epoch = t.epoch
  nodes : (t'.nodes.map NodeRecord.bare).Perm (t.nodes.map NodeRecord.bare)
  drives : t'.drives.Perm t.drives

/-- The same plan, but for the order of the targets and the mark of the local one. -/
structure PlacementPlan.SameChoice (p p' : PlacementPlan) : Prop where
  epoch : p'.epoch = p.epoch
  targets : (p'.targets.map fun x => (x.slot, x.rpcAddress, x.domain)).Perm
    (p.targets.map fun x => (x.slot, x.rpcAddress, x.domain))
  counts : p'.requiredAcknowledgements = p.requiredAcknowledgements ∧ p'.desiredReplicas = p.desiredReplicas
  reused : p'.failureDomainsReused = p.failureDomainsReused

section Rearranged

variable {score : Score} {r : ObjectPlacementRequest} {t t' : ClusterTopology}

theorem admits_congr (h : t'.config = t.config) : r.admits t' = r.admits t := by
  funext x
  simp only [ObjectPlacementRequest.admits, ObjectPlacementRequest.hasRoom, ObjectPlacementRequest.reservation,
    ObjectPlacementRequest.reserve, h]

theorem candidate_congr (h : t'.config = t.config) : candidate score r t' = candidate score r t := by
  funext n d
  simp only [candidate, ObjectPlacementRequest.scope, h]

theorem find?_node {nodes : List NodeRecord} (hnodes : (nodes.map (·.nodeId)).Nodup) {id : NodeId} {n : NodeRecord} :
    nodes.find? (·.nodeId = id) = some n ↔ n ∈ nodes ∧ n.nodeId = id := by
  refine ⟨fun h => ⟨List.mem_of_find?_eq_some h, by simpa using List.find?_some h⟩, fun ⟨hn, he⟩ => ?_⟩
  cases hf : nodes.find? (·.nodeId = id) with
  | none => exact absurd he (by simpa using List.find?_eq_none.mp hf n hn)
  | some m =>
    have hm : m.nodeId = id := by simpa using List.find?_some hf
    rw [List.inj_on_of_nodup_map hnodes (List.mem_of_find?_eq_some hf) hn (hm.trans he.symm)]

theorem node_bare (t : ClusterTopology) (id : NodeId) :
    (t.node id).map NodeRecord.bare = (t.nodes.map NodeRecord.bare).find? (·.nodeId = id) := by
  rw [List.find?_map]
  rfl

/-- The domains in use are those of the nodes, whatever their order. -/
theorem occupied_congr (h : t.Rearranges t') (hnodes : (t.nodes.map (·.nodeId)).Nodup) :
    r.occupied t' = r.occupied t := by
  have hbare : ((t.nodes.map NodeRecord.bare).map (·.nodeId)).Nodup := by rwa [List.map_map]
  have hnode : ∀ id, (t'.node id).map NodeRecord.bare = (t.node id).map NodeRecord.bare := by
    intro id
    refine Option.ext fun n => ?_
    rw [node_bare, node_bare, find?_node hbare, find?_node (((h.nodes.map _).nodup_iff).mpr hbare), h.nodes.mem_iff]
  have hdomain : ∀ (f : NodeRecord → String), (∀ n, f n.bare = f n) → ∀ id, (t'.node id).map f = (t.node id).map f := by
    intro f hf id
    have e := congrArg (Option.map f) (hnode id)
    simpa only [Option.map_map, Function.comp_def, hf] using e
  simp only [ObjectPlacementRequest.occupied, ObjectPlacementRequest.scope, h.config,
    hdomain (fun n => n.domainKey _) fun _ => rfl]
  congr 3
  funext x
  exact hdomain (fun n => placementDomain n x.2 _) (fun _ => rfl) x.1

/-- A score, a node and a device make one candidate. -/
theorem candidates_congr (h : t.Rearranges t') (hnodes : (t.nodes.map (·.nodeId)).Nodup) :
    candidates score r t' = candidates score r t := by
  rw [candidates_eq, candidates_eq, admits_congr h.config, candidate_congr h.config]
  refine Candidate.sort_congr ((h.drives.filter _).map _) ?_
  simp only [List.forall_mem_map]
  intro x hx y hy hscore hnode hdevice
  obtain ⟨⟨n, d⟩, hn, rfl⟩ := List.mem_map.mp (h.drives.mem_iff.mp (List.mem_of_mem_filter hx))
  obtain ⟨⟨m, e⟩, hm, rfl⟩ := List.mem_map.mp (h.drives.mem_iff.mp (List.mem_of_mem_filter hy))
  obtain rfl := List.inj_on_of_nodup_map hnodes (mem_owned.mp hn).1 (mem_owned.mp hm).1 hnode
  have hid : d.id = e.id := hdevice
  simp only [candidate, hid]
  simpa only [candidate, Candidate.mk.injEq, true_and] using hscore

end Rearranged

/-- The node that asks, and the order of the topology, change neither whether there is a plan nor what it chooses. -/
theorem place_same_everywhere (score : Score)
    (localNode localNode' : Option NodeId) (r : ObjectPlacementRequest) (t t' : ClusterTopology)
    (hnodes : (t.nodes.map (·.nodeId)).Nodup) (h : t.Rearranges t') :
    ((∃ e, place score localNode' r t' = .error e) ↔ ∃ e, place score localNode r t = .error e) ∧
      ∀ plan plan', place score localNode r t = .ok plan → place score localNode' r t' = .ok plan' →
        plan.SameChoice plan' := by
  have hcand : candidates score r t' = candidates score r t := candidates_congr h hnodes
  have hfirst : firstPass score r t' = firstPass score r t := by
    simp only [firstPass, hcand, occupied_congr h hnodes]
  have hchosen : chosen score r t' = chosen score r t := by simp only [chosen, hfirst, hcand]
  constructor
  · simp only [place_error_iff, Refuses, hcand, hfirst, hchosen, ObjectPlacementRequest.strict, h.config]
  · intro plan plan' hplan hplan'
    obtain ⟨hdes, hreq, hepoch, htargets⟩ := place_ok hplan
    obtain ⟨hdes', hreq', hepoch', htargets'⟩ := place_ok hplan'
    refine ⟨by rw [hepoch, hepoch', h.epoch], ?_, by simp only [hdes, hreq, hdes', hreq', and_self],
      by rw [(place_reused hplan).1, (place_reused hplan').1, hfirst, hchosen]⟩
    rw [htargets, htargets', hchosen]
    refine ((localFirst_perm ..).map _).trans (.trans (.of_eq ?_) ((localFirst_perm ..).map _).symm)
    rw [List.map_map, List.map_map]
    rfl

/-- The topology read backwards, on a node of its own. -/
theorem place_same_backwards : ∃ plan plan',
    place Racks.even none Racks.request (Racks.topology false) = .ok plan ∧
    place Racks.even (some (.ofNat 3)) Racks.request Racks.backwards = .ok plan' ∧
    plan.targets.map (·.nodeId) ≠ plan'.targets.map (·.nodeId) ∧ plan.SameChoice plan' := by
  obtain ⟨plan, plan', h, h', hne⟩ : ∃ plan plan',
      place Racks.even none Racks.request (Racks.topology false) = .ok plan ∧
      place Racks.even (some (.ofNat 3)) Racks.request Racks.backwards = .ok plan' ∧
      plan.targets.map (·.nodeId) ≠ plan'.targets.map (·.nodeId) := ⟨_, _, rfl, rfl, by decide +kernel⟩
  have hmap : (Racks.topology false).Rearranges Racks.backwards := ⟨rfl, rfl, by decide +kernel, by decide +kernel⟩
  exact ⟨plan, plan', h, h', hne, (place_same_everywhere _ _ _ _ _ _ (by decide +kernel) hmap).2 _ _ h h'⟩

/-! ## One more device -/

section Grown

variable {score : Score} {r : ObjectPlacementRequest} {t t' : ClusterTopology}
  {x : NodeRecord × DeviceRecord}

/-- The candidates are those there were, and the device when it is admitted. -/
theorem candidates_grown (score : Score) (hcfg : t'.config = t.config) (hids : t'.deviceIds.Nodup)
    (hadd : t'.drives.Perm (x :: t.drives)) :
    candidates score r t' = candidates score r t ∨
      ∃ pre post, candidates score r t = pre ++ post ∧
        candidates score r t' = pre ++ candidate score r t x.1 x.2 :: post := by
  have hl := nodup_candidates score r hids
  rw [candidates_eq, admits_congr hcfg, candidate_congr hcfg] at hl
  have hperm := ((hadd.filter (r.admits t)).map fun x => candidate score r t x.1 x.2)
  have hsort : candidates score r t' =
      (((x :: t.drives).filter (r.admits t)).map
        fun x => candidate score r t x.1 x.2).insertionSort Candidate.order := by
    rw [candidates_eq, admits_congr hcfg, candidate_congr hcfg]
    refine Candidate.sort_congr hperm fun a ha b hb _ _ hd => ?_
    exact List.inj_on_of_nodup_map hl (List.mem_insertionSort _ |>.mpr ha) (List.mem_insertionSort _ |>.mpr hb) hd
  rw [hsort]
  by_cases hx : r.admits t x = true
  · right
    rw [List.filter_cons_of_pos hx, List.map_cons, List.insertionSort_cons, ← candidates_eq,
      List.orderedInsert_eq_take_drop]
    exact ⟨_, _, (List.takeWhile_append_dropWhile ..).symm, rfl⟩
  · left
    rw [List.filter_cons_of_neg hx, ← candidates_eq]

theorem chosen_grown (score : Score) (hcfg : t'.config = t.config) (hids : t'.deviceIds.Nodup)
    (hadd : t'.drives.Perm (x :: t.drives)) (hocc : r.occupied t' = r.occupied t) :
    (∀ c ∈ chosen score r t', c ∈ chosen score r t ∨ c = candidate score r t x.1 x.2) ∧
      (candidate score r t x.1 x.2 ∉ chosen score r t' → chosen score r t' = chosen score r t) := by
  have hl := nodup_candidates score r hids
  rw [chosen_eq hl, hocc]
  rcases candidates_grown score (r := r) hcfg hids hadd with e | ⟨pre, post, e, e'⟩
  · rw [e] at hl ⊢
    rw [chosen_eq hl]
    exact ⟨fun c hc => .inl hc, fun _ => rfl⟩
  · rw [e'] at hl ⊢
    have hl₀ : ((candidates score r t).map (·.deviceId)).Nodup :=
      e ▸ hl.sublist ((List.Sublist.append_left (List.sublist_cons_self ..) pre).map _)
    rw [chosen_eq hl₀, e]
    exact ⟨fun c hc => or_iff_not_imp_right.mpr (mem_take_of_insert hl.of_map hc), take_insert_of_notMem hl.of_map⟩

end Grown

/-! ### A device that is registered -/

/-- What the devices of a node are to `place`. -/
def NodeRecord.drives (n : NodeRecord) : List (NodeRecord × DeviceRecord) := n.devices.map fun d => (n.bare, d)

theorem drives_atEpoch (clusterId : ClusterId) (config : ClusterConfig) (nodes : List NodeRecord) (epoch : UInt64) :
    (ClusterTopology.atEpoch clusterId config nodes epoch).drives.Perm
      (nodes.flatMap fun n => n.ensureLegacyDevice.drives) := by
  have hdrives : ∀ t : ClusterTopology, t.drives = t.nodes.flatMap NodeRecord.drives := by
    intro t
    simp only [ClusterTopology.drives, ClusterTopology.owned, List.map_flatMap, List.map_map]
    rfl
  rw [hdrives, ← List.flatMap_map NodeRecord.ensureLegacyDevice NodeRecord.drives]
  exact (List.perm_insertionSort ClusterTopology.nodeOrder _).flatMap_right _

/-- A device that is new to its node. -/
theorem upsertDevice_perm {l : List DeviceRecord} {d : DeviceRecord} (h : l.find? (·.id = d.id) = none) :
    (upsertDevice l d).Perm (d :: l) := by
  have hany : ¬ l.any (·.id = d.id) = true := by
    rw [List.any_eq_true]
    rintro ⟨x, hx, hid⟩
    exact List.find?_eq_none.mp h x hx hid
  unfold upsertDevice
  rw [if_neg hany]
  exact (List.perm_insertionSort ..).trans (List.perm_append_singleton d l)

/-- `RegisterDevice` of a device that its node does not have adds that device to what `place` reads, and nothing
else. -/
theorem drives_registerDevice {s s' : ClusterCatalog} {o : ClusterOutcome} {id : NodeId} {device : DeviceRecord}
    {time : DateTime} {n : NodeRecord} (hn : s.node id = some n) (hnew : n.ensureLegacyDevice.device device.id = none)
    (h : Returns (applyCommandTx (.registerDevice id device time)) s o s') (clusterId : ClusterId)
    (config : ClusterConfig) (epoch epoch' : UInt64) :
    (ClusterTopology.atEpoch clusterId config s'.nodes.rows epoch').drives.Perm
      ((n.bare, device) :: (ClusterTopology.atEpoch clusterId config s.nodes.rows epoch).drives) := by
  obtain ⟨n', hrows, hdrives⟩ : ∃ n', s'.nodes = s.nodes.insert id.bytes n' ∧
      n'.ensureLegacyDevice.drives.Perm ((n.bare, device) :: n.ensureLegacyDevice.drives) := by
    cases nodeEffect_of_returns h with
    | same hc | report _ hc => cases hc
    | @registerDevice _ _ recorded _ m _ hrecorded hs =>
      obtain rfl : n = m := Option.some.inj (hn.symm.trans hs.1)
      rw [hnew] at hrecorded
      obtain rfl : recorded = device := hrecorded
      have hperm := upsertDevice_perm hnew
      have hbare : n.ensureLegacyDevice.bare = n.bare := by
        unfold NodeRecord.ensureLegacyDevice
        split_ifs <;> rfl
      refine ⟨_, hs.2, ?_⟩
      rw [NodeRecord.ensureLegacyDevice, if_neg]
      · rw [← hbare]
        exact hperm.map _
      · intro hempty
        have hnil : upsertDevice n.ensureLegacyDevice.devices recorded = [] := List.isEmpty_iff.mp hempty
        rw [hnil] at hperm
        exact List.cons_ne_nil _ _ hperm.symm.eq_nil
  refine (drives_atEpoch ..).trans (.trans ?_ ((drives_atEpoch ..).symm.cons _))
  rw [List.perm_iff_count]
  intro x
  -- the rows are those of before but for the one of the node
  have hswap := (hrows ▸ Table.swap_insert s.nodes id.bytes n' : Table.Swap s.nodes s'.nodes _ _) (fun _ => true)
    (fun n => n.ensureLegacyDevice.drives.count x)
  have hcount := hdrives.count_eq x
  have hn : s.nodes[id.bytes]? = some n := hn
  simp only [hn, Table.sumOver, List.filter_true, Table.share, if_true, Option.elim_some] at hswap
  rw [List.count_cons] at hcount ⊢
  rw [List.count_flatMap, List.count_flatMap]
  simp only [Function.comp_def]
  omega


/-- What is chosen with one more device was chosen without it, or is that device; and a device that is not chosen makes
no difference. -/
theorem place_moves_little (score : Score) (localNode : Option NodeId)
    (r : ObjectPlacementRequest) (t t' : ClusterTopology) (x : NodeRecord × DeviceRecord) (hcfg : t'.config = t.config)
    (hadd : t'.drives.Perm (x :: t.drives)) (hids : t'.deviceIds.Nodup)
    (hnew : r.existingTargets = [] ∧ r.existingNodes = [])
    (plan plan' : PlacementPlan) (h : place score localNode r t = .ok plan)
    (h' : place score localNode r t' = .ok plan') :
    (∀ y ∈ plan'.targets.map (·.slot), y ∈ plan.targets.map (·.slot) ∨ y = (x.1.nodeId, x.2.id)) ∧
      ((x.1.nodeId, x.2.id) ∉ plan'.targets.map (·.slot) →
        plan'.targets = plan.targets ∧ plan'.failureDomainsReused = plan.failureDomainsReused) := by
  have hids₀ : t.deviceIds.Nodup := (((hadd.map _).nodup_iff).mp hids).of_cons
  have hocc : r.occupied t' = r.occupied t := by simp [ObjectPlacementRequest.occupied, hnew.1, hnew.2]
  obtain ⟨hfew, hsame⟩ := chosen_grown score hcfg hids hadd hocc
  constructor
  · intro y hy
    obtain ⟨c, hc, rfl⟩ := (mem_slots h').mp hy
    rcases hfew c hc with hc | rfl
    · exact .inl ((mem_slots h).mpr ⟨c, hc, rfl⟩)
    · exact .inr rfl
  · intro hx
    have hchosen := hsame fun hc => hx ((mem_slots h').mpr ⟨_, hc, rfl⟩)
    obtain ⟨-, -, -, htargets⟩ := place_ok h
    obtain ⟨-, -, -, htargets'⟩ := place_ok h'
    refine ⟨by rw [htargets, htargets', hchosen], ?_⟩
    rw [(place_reused h).1, (place_reused h').1, decide_eq_decide, reused_iff_shares hids localNode,
      reused_iff_shares hids₀ localNode, hchosen, hocc]

namespace Racks

/-- The nodes of the topology as rows. -/
def catalog : ClusterCatalog :=
  { ClusterCatalog.empty with
    nodes := (topology false).nodes.foldl (fun rows n => rows.insert n.nodeId.bytes n) ∅ }

/-- A second drive of the first node. -/
def secondDrive : ClusterCommand := .registerDevice (.ofNat 1) { drive 1 with id := .ofNat 5 } .epoch

def view (s : ClusterCatalog) : ClusterTopology :=
  .atEpoch (.ofNat 1) .default s.nodes.rows (s.readCounter "cluster_map_epoch")

end Racks

/-- A drive that is registered on the first node takes a replica from the second. -/
theorem place_moves_little_registered :
    ∃ plan, place Racks.even none Racks.request (Racks.view Racks.catalog) = .ok plan ∧
    ∃ plan', place Racks.even none Racks.request (Racks.view (Racks.catalog.next Racks.secondDrive)) = .ok plan' ∧
    (.ofNat 1, .ofNat 5) ∈ plan'.targets.map (·.slot) ∧
    ∀ y ∈ plan'.targets.map (·.slot), y ∈ plan.targets.map (·.slot) ∨ y = (.ofNat 1, .ofNat 5) := by
  obtain ⟨plan, hplan, -⟩ : ∃ plan,
    place Racks.even none Racks.request (Racks.view Racks.catalog) = .ok plan ∧ True := by
    decide +kernel
  obtain ⟨o, ho, -⟩ : ∃ o, (commit (applyCommandTx Racks.secondDrive) Racks.catalog).1 = .ok o ∧ True := by
    decide +kernel
  have hret : Returns (applyCommandTx Racks.secondDrive) Racks.catalog o (Racks.catalog.next Racks.secondDrive) :=
    commit_eq_ok.mp (Prod.ext ho rfl)
  have hadd :=
    drives_registerDevice (n := Racks.node 1 "a") (by decide +kernel) (by decide +kernel) hret (.ofNat 1) .default
    (Racks.catalog.readCounter "cluster_map_epoch")
    ((Racks.catalog.next Racks.secondDrive).readCounter "cluster_map_epoch")
  refine ⟨plan, hplan, exists_and_of (by decide +kernel) fun plan' hplan' _ => ?_⟩
  exact (place_moves_little Racks.even none Racks.request (Racks.view Racks.catalog)
    (Racks.view (Racks.catalog.next Racks.secondDrive)) _ rfl hadd
    (by decide +kernel) ⟨rfl, rfl⟩ plan plan' hplan hplan').1

end RecordStore.Cluster

import RecordStore.Cluster.Selection
import RecordStore.Lib.Spread

/-!
# Cluster.Choice — what `place` chooses

The devices `place` considers are those of the topology that one predicate admits, and its two loops take a front of
one ranking of them: a device of every failure domain that is free, and then the others.
-/

namespace RecordStore.Cluster

open RecordStore.Lib RecordStore.Core

/-! ## The devices that are considered -/

/-- What `place` reads of a node, its devices apart: the identifier, the address, the failure domain and the state. -/
def NodeRecord.bare (n : NodeRecord) : NodeRecord :=
  { n with
    raftId := 0
    storageClass := defaultStorageClass
    metadataVoter := false
    capacity := ⟨0, 0, 0, 0⟩
    devices := []
    joinedAt := .epoch
    lastHeartbeatAt := none
    stateChangedAt := .epoch
    stateReason := none }

namespace ClusterTopology

/-- Every device with the record of its node. -/
def owned (t : ClusterTopology) : List (NodeRecord × DeviceRecord) := t.nodes.flatMap fun n =>
  n.devices.map fun d => (n, d)

/-- The same, with no more of the node than `place` reads. -/
def drives (t : ClusterTopology) : List (NodeRecord × DeviceRecord) := t.owned.map fun x => (x.1.bare, x.2)

/-- The identifiers of the devices. -/
def deviceIds (t : ClusterTopology) : List DeviceId := t.drives.map fun x => x.2.id

end ClusterTopology

/-- The filters of the loop over the topology, together. -/
def ObjectPlacementRequest.admits (r : ObjectPlacementRequest) (t : ClusterTopology) (x : NodeRecord × DeviceRecord) :
    Bool :=
  x.1.state.acceptsNewReplicas && (r.eligibleClass x.2 && x.2.state.acceptsNewPlacements) &&
    (r.hasRoom t x.2 && !r.bars (x.1.nodeId, x.2.id))

section Considered

variable {score : Score} {r : ObjectPlacementRequest} {t : ClusterTopology}

theorem mem_owned {x : NodeRecord × DeviceRecord} : x ∈ t.owned ↔ x.1 ∈ t.nodes ∧ x.2 ∈ x.1.devices := by
  obtain ⟨n, d⟩ := x
  simp only [ClusterTopology.owned, List.mem_flatMap, List.mem_map, Prod.mk.injEq]
  exact ⟨fun ⟨_, hm, _, he, hn, hd⟩ => hn ▸ hd ▸ ⟨hm, he⟩, fun h => ⟨n, h.1, d, h.2, rfl, rfl⟩⟩

/-- The loop keeps what is admitted. -/
theorem eligible_eq : r.eligible t = t.owned.filter (r.admits t) := by
  simp only [ObjectPlacementRequest.eligible, ObjectPlacementRequest.withCapacity, ObjectPlacementRequest.classMatches,
    ClusterTopology.owned, List.filter_filter]
  induction t.nodes with
  | nil => rfl
  | cons n nodes ih =>
    rw [List.flatMap_cons, List.filter_append, ← ih, List.filter_cons]
    split_ifs with hn
    · rw [List.flatMap_cons, List.filter_append]
      congr 1
      rw [List.filter_map, List.filter_map, List.filter_filter]
      congr 1
      refine List.filter_congr fun d _ => ?_
      simp only [ObjectPlacementRequest.admits, Function.comp_apply, hn, Bool.true_and]
      rw [Bool.and_comm, Bool.and_comm (r.hasRoom t d)]
    · simp [ObjectPlacementRequest.admits, hn]

theorem candidates_eq :
    candidates score r t =
      ((t.drives.filter (r.admits t)).map fun x => candidate score r t x.1 x.2).insertionSort Candidate.order := by
  rw [candidates, eligible_eq, ClusterTopology.drives, List.filter_map, List.map_map]
  rfl

theorem candidates_perm :
    (candidates score r t).Perm ((r.eligible t).map fun x => candidate score r t x.1 x.2) := List.perm_insertionSort ..

/-- Candidates are devices of the topology. -/
theorem nodup_candidates (score : Score) (r : ObjectPlacementRequest)
    (h : t.deviceIds.Nodup) : ((candidates score r t).map (·.deviceId)).Nodup := by
  refine ((List.Perm.map _ (candidates_eq ▸ List.perm_insertionSort ..)).nodup_iff).mpr ?_
  rw [List.map_map]
  exact h.sublist (List.Sublist.map _ List.filter_sublist)

end Considered

/-! ## The order of the candidates -/

namespace Candidate

/-- The comparison that the order is made of. -/
def compareRank : Candidate → Candidate → Ordering :=
  compareLex (compareOn Candidate.score) (compareLex (compareOn (·.nodeId.bytes)) (compareOn (·.deviceId.bytes)))

instance : Std.TransCmp compareRank := inferInstanceAs (Std.TransCmp (compareLex _ _))

theorem order_iff {a b : Candidate} : order a b ↔ (compareRank a b).isLE := by
  simp only [order, compareRank, compareLex, compareOn]
  rcases Nat.lt_trichotomy a.score b.score with h | h | h
  · simp [Nat.compare_eq_lt.mpr h, h]
  · simp [h]
  · simp [Nat.compare_eq_gt.mpr h, Nat.lt_asymm h, Nat.ne_of_gt h]

instance : IsTrans Candidate order :=
  ⟨fun _ _ _ h h' => order_iff.mpr (Std.TransCmp.isLE_trans (order_iff.mp h) (order_iff.mp h'))⟩

instance : Std.Total order := ⟨fun a b => by
  rw [order_iff, order_iff, @Std.OrientedCmp.eq_swap _ compareRank _ b a]
  cases compareRank a b <;> simp⟩

theorem order_antisymm {a b : Candidate} (h : order a b) (h' : order b a) :
    a.score = b.score ∧ a.nodeId = b.nodeId ∧ a.deviceId = b.deviceId := by
  have e := Std.OrientedCmp.isLE_antisymm (order_iff.mp h) (order_iff.mp h')
  simp only [compareRank, compareLex, compareOn, Ordering.then_eq_eq] at e
  exact ⟨Nat.compare_eq_eq.mp e.1, Id.bytes_inj.mp (Std.LawfulEqCmp.eq_of_compare e.2.1),
    Id.bytes_inj.mp (Std.LawfulEqCmp.eq_of_compare e.2.2)⟩

/-- Candidates that their score and identifiers tell apart are sorted in one way only. -/
theorem sort_congr {l l' : List Candidate} (h : l.Perm l')
    (hl : ∀ a ∈ l, ∀ b ∈ l, a.score = b.score → a.nodeId = b.nodeId → a.deviceId = b.deviceId → a = b) :
    l.insertionSort order = l'.insertionSort order := by
  have hperm := (List.perm_insertionSort order l).trans (h.trans (List.perm_insertionSort order l').symm)
  refine hperm.eq_of_pairwise (fun a b ha hb hab hba => ?_) (List.pairwise_insertionSort ..)
    (List.pairwise_insertionSort ..)
  obtain ⟨h₁, h₂, h₃⟩ := order_antisymm hab hba
  exact hl a (List.mem_insertionSort _ |>.mp ha) b (h.mem_iff.mpr (List.mem_insertionSort _ |>.mp hb)) h₁ h₂ h₃

end Candidate

/-! ## The two passes -/

section Passes

variable {score : Score} {r : ObjectPlacementRequest} {t : ClusterTopology}

theorem spread_fst (wanted : Nat) (l : List Candidate) (occupied : List String) (acc : List Candidate) :
    (spread wanted l occupied acc).1 = acc ++ (firsts Candidate.domain occupied l).take (wanted - acc.length) := by
  induction l generalizing occupied acc with
  | nil => simp [spread, firsts]
  | cons c l ih =>
    rw [spread]
    split_ifs with hfull hold
    · simp [Nat.sub_eq_zero_of_le hfull]
    · rw [ih, firsts, if_pos hold]
    · obtain ⟨k, hk⟩ : ∃ k, wanted - acc.length = k + 1 := ⟨wanted - acc.length - 1, by omega⟩
      have hk' : wanted - (acc ++ [c]).length = k := by simp; omega
      rw [ih, firsts, if_neg hold, hk, hk', List.take_succ_cons, List.append_assoc, List.singleton_append]

theorem fill_eq (wanted : Nat) (selected : List DeviceId) (l acc : List Candidate) :
    fill wanted selected l acc =
      acc ++ (l.filter fun c => decide (c.deviceId ∉ selected)).take (wanted - acc.length) := by
  induction l generalizing acc with
  | nil => simp [fill]
  | cons c l ih =>
    rw [fill]
    split_ifs with hfull hold
    · simp [Nat.sub_eq_zero_of_le hfull]
    · rw [ih, List.filter_cons_of_neg (by simpa using hold)]
    · obtain ⟨k, hk⟩ : ∃ k, wanted - acc.length = k + 1 := ⟨wanted - acc.length - 1, by omega⟩
      have hk' : wanted - (acc ++ [c]).length = k := by simp; omega
      rw [ih, List.filter_cons_of_pos (by simpa using hold), hk, hk', List.take_succ_cons, List.append_assoc,
        List.singleton_append]

theorem firstPass_fst :
    (firstPass score r t).1 = (firsts Candidate.domain (r.occupied t) (candidates score r t)).take r.wanted := by
  rw [firstPass, spread_fst]
  simp

/-- Both passes together take a front of the ranking. -/
theorem chosen_eq (hids : ((candidates score r t).map (·.deviceId)).Nodup) :
    chosen score r t = (spreadRanking Candidate.domain (r.occupied t) (candidates score r t)).take r.wanted := by
  have hsame : ((candidates score r t).filter fun c => decide (c.deviceId ∉
      (firsts Candidate.domain (r.occupied t) (candidates score r t)).map (·.deviceId))) =
      (candidates score r t).filter (· ∉ firsts Candidate.domain (r.occupied t) (candidates score r t)) := by
    refine List.filter_congr fun c hc => decide_eq_decide.mpr (not_congr ⟨fun h => ?_, List.mem_map_of_mem⟩)
    obtain ⟨c', hc', e⟩ := List.mem_map.mp h
    rwa [← List.inj_on_of_nodup_map hids ((firsts_sublist _ _).subset hc') hc e]
  rw [chosen, firstPass_fst, spreadRanking]
  split_ifs with hfew
  · have hall : (firsts Candidate.domain (r.occupied t) (candidates score r t)).length < r.wanted := by
      rw [List.length_take] at hfew
      omega
    rw [List.take_of_length_le hall.le, fill_eq, hsame, List.take_append, List.take_of_length_le hall.le]
  · rw [List.length_take] at hfew
    rw [List.take_append_of_le_length (by omega)]

end Passes

end RecordStore.Cluster

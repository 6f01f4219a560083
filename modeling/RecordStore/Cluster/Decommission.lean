import RecordStore.Cluster.History

/-!
# Cluster.Decommission — whether a node can be removed

`DecommissionSafety::evaluate` (`rebalance.rs`) and the page by page evaluation of the coordinator.  For
each placement the evaluation takes one replica off the number of healthy ones, whatever the node holds of
it.  A placement is judged by its first replica on the node, so that the verdict is sound as long as no more
than that one counts.
-/

namespace RecordStore.Cluster

open RecordStore.Lib RecordStore.Core

/-! ## Listing the placements -/

structure PlacementPage where
  placements : List PayloadPlacement
  nextObjectId : Option ObjectId

namespace ClusterCatalog

/-- Where a listing resumes. -/
def resumeAfter (after : Option ObjectId) : Bytes := (after.map fun id => id.bytes ++ [0]).getD []

/-- `list_placements`. -/
def listPlacements (s : ClusterCatalog) (after : Option ObjectId) (limit : Nat) : PlacementPage :=
  let limit := min (max limit 1) 10000
  let read :=
    ((s.placements.toList.filter fun r => (compare (resumeAfter after) r.1).isLE).take (limit + 1)).map Prod.snd
  if read.length > limit then ⟨read.dropLast, read.dropLast.getLast?.map (·.objectId)⟩ else ⟨read, none⟩

/-- What comes after a row, in key order. -/
theorem filter_after {V : Type} {rows rest : List (Bytes × V)} (before : List (Bytes × V)) {r : Bytes × V}
    (hsorted : rows.Pairwise fun a b => compare a.1 b.1 = .lt) (hsplit : rows = before ++ r :: rest) :
    (rows.filter fun x => (compare (r.1 ++ [0]) x.1).isLE) = rest := by
  subst hsplit
  obtain ⟨-, hrest, hbefore⟩ := List.pairwise_append.mp hsorted
  have hdrop : ∀ a ∈ before, ¬ (compare (r.1 ++ [0]) a.1).isLE = true := by
    intro a ha hle
    have hlt : compare a.1 r.1 = .lt := hbefore a ha r List.mem_cons_self
    have hgt : compare r.1 a.1 = .lt := isLE_compare_append_zero.mp hle
    have hswap : compare r.1 a.1 = (compare a.1 r.1).swap := Std.OrientedCmp.eq_swap
    rw [hswap, hlt] at hgt
    cases hgt
  have hself : ¬ (compare (r.1 ++ [0]) r.1).isLE = true := by
    rw [isLE_compare_append_zero, show compare r.1 r.1 = .eq from Std.ReflCmp.compare_self]
    exact nofun
  have hkeep : ∀ a ∈ rest, (compare (r.1 ++ [0]) a.1).isLE = true :=
    fun a ha => isLE_compare_append_zero.mpr ((List.pairwise_cons.mp hrest).1 a ha)
  rw [List.filter_append, List.filter_eq_nil_iff.mpr hdrop, List.nil_append, List.filter_cons, if_neg hself,
    List.filter_eq_self.mpr hkeep]

/-- The page of the rows that are left. -/
theorem listPlacements_eq {s : ClusterCatalog} {after : Option ObjectId} (limit : Nat)
    {rows : List (Bytes × PayloadPlacement)}
    (h : (s.placements.toList.filter fun r => (compare (resumeAfter after) r.1).isLE) = rows) :
    s.listPlacements after limit =
      if rows.length > min (max limit 1) 10000 then
        ⟨(rows.take (min (max limit 1) 10000)).map Prod.snd,
          ((rows.take (min (max limit 1) 10000)).map Prod.snd).getLast?.map (·.objectId)⟩
      else ⟨rows.map Prod.snd, none⟩ := by
  unfold listPlacements
  rw [h]
  generalize min (max limit 1) 10000 = n
  dsimp only
  by_cases hlong : rows.length > n
  · have htake : ((rows.take (n + 1)).map Prod.snd).dropLast = (rows.take n).map Prod.snd := by
      have hmin : min ((rows.take (n + 1)).length - 1) (n + 1) = n := by
        rw [List.length_take]
        omega
      rw [← List.map_dropLast, List.dropLast_eq_take, List.take_take, hmin]
    rw [if_pos hlong, if_pos (by rw [List.length_map, List.length_take]; omega), htake]
  · rw [if_neg hlong, if_neg (by rw [List.length_map, List.length_take]; omega), List.take_of_length_le (by omega)]

end ClusterCatalog

/-! ## The evaluation -/

/-- Whether a node can leave the cluster without losing durability. -/
structure DecommissionSafety where
  nodeId : NodeId
  safe : Bool
  atRiskPayloads : UInt64
  unavailablePayloads : UInt64
  replicasRemaining : UInt64
  bytesRemaining : UInt64
  reason : String
  deriving DecidableEq

namespace DecommissionSafety

/-- The four running totals. -/
structure Tally where
  atRisk : UInt64
  unavailable : UInt64
  replicas : UInt64
  bytes : UInt64

section Evaluate

variable (t : ClusterTopology) (node : NodeId)

/-- `u32::from(required).min(desired)`. -/
def need (p : PayloadPlacement) : UInt32 := min t.config.requiredAcknowledgements.toUInt32 (p.durability t).desired

/-- The healthy replicas that are left, as the evaluation counts them. -/
def remaining (p : PayloadPlacement) (r : Replica) : UInt32 :=
  let healthy := (p.durability t).healthy
  if r.state.durable && t.contributesDurability node then (if healthy = 0 then 0 else healthy - 1) else healthy

def judge (acc : Tally) (p : PayloadPlacement) : Tally :=
  match p.replica node with
  | none => acc
  | some r =>
    let acc := { acc with replicas := saturatingAdd acc.replicas 1, bytes := saturatingAdd acc.bytes r.size }
    if remaining t node p r = 0 then { acc with unavailable := saturatingAdd acc.unavailable 1 }
    else if remaining t node p r < need t p then { acc with atRisk := saturatingAdd acc.atRisk 1 }
    else acc

def tally (placements : List PayloadPlacement) : Tally := placements.foldl (judge t node) ⟨0, 0, 0, 0⟩

/-- Evaluates whether removing a node preserves durability. -/
def evaluate (placements : List PayloadPlacement) : DecommissionSafety :=
  let required := toString t.config.requiredAcknowledgements.toNat
  let total := tally t node placements
  let safe := total.atRisk = 0 ∧ total.unavailable = 0
  { nodeId := node
    safe := safe
    atRiskPayloads := total.atRisk
    unavailablePayloads := total.unavailable
    replicasRemaining := total.replicas
    bytesRemaining := total.bytes
    reason :=
      if safe then
        if total.replicas = 0 then "node " ++ node.uuid.toText ++ " holds no replicas and can be removed"
        else "removing node " ++ node.uuid.toText ++ " keeps every payload at or above the required durability of " ++
          required ++ " replica(s)"
      else toString total.unavailable.toNat ++ " object version(s) would become unreadable and " ++
        toString total.atRisk.toNat ++ " would fall below the required durability of " ++ required ++ " replica(s)" }

end Evaluate

/-! ## Page by page -/

/-- Two pages together.  Only the counters are added without a check. -/
def merge (total page : DecommissionSafety) : DecommissionSafety :=
  { page with
    nodeId := total.nodeId
    safe := total.safe && page.safe
    atRiskPayloads := total.atRiskPayloads + page.atRiskPayloads
    unavailablePayloads := total.unavailablePayloads + page.unavailablePayloads
    replicasRemaining := total.replicasRemaining + page.replicasRemaining
    bytesRemaining := total.bytesRemaining + page.bytesRemaining }

section Paged

variable (t : ClusterTopology) (node : NodeId) (s : ClusterCatalog) (batch : Nat)

/-- The loop of `decommission_safety`; `none` when the fuel did not suffice. -/
def pages : Nat → Option ObjectId → DecommissionSafety → Option DecommissionSafety
  | 0, _, _ => none
  | fuel + 1, cursor, total =>
    let page := s.listPlacements cursor batch
    if page.placements.isEmpty then some total
    else
      let total := total.merge (evaluate t node page.placements)
      match page.nextObjectId with
      | none => some total
      | some next => pages fuel (some next) total

/-- The reason is rebuilt so that it reflects the whole cluster. -/
def summarize (total : DecommissionSafety) : DecommissionSafety :=
  let required := toString t.config.requiredAcknowledgements.toNat
  { total with
    reason :=
      if total.safe then "removing node " ++ node.uuid.toText ++
        " keeps every object version at or above the required durability of " ++ required ++ " replica(s); " ++
        toString total.replicasRemaining.toNat ++ " replica(s) would be released"
      else toString total.unavailablePayloads.toNat ++ " object version(s) would become unreadable and " ++
        toString total.atRiskPayloads.toNat ++ " would fall below the required durability of " ++ required ++
        " replica(s)" }

/-- `decommission_safety`. -/
def decommissionSafety (fuel : Nat) : Option DecommissionSafety :=
  (pages t node s batch fuel none (evaluate t node [])).map (summarize t node)

end Paged

/-! ## The verdict on a list of placements -/

section Verdict

variable {t : ClusterTopology} {node : NodeId}

/-- A placement passes when enough is left by the evaluation's own count. -/
def Passes (t : ClusterTopology) (node : NodeId) (p : PayloadPlacement) : Prop :=
  ∀ r, p.replica node = some r → remaining t node p r ≠ 0 ∧ need t p ≤ remaining t node p r

theorem saturatingAdd_one_ne_zero (n : UInt64) : saturatingAdd n 1 ≠ 0 := by
  intro h
  have hnat := saturatingAdd_toNat n 1
  rw [h, UInt64.toNat_zero, UInt64.toNat_one] at hnat
  omega

/-- The two counters stay at zero exactly when every placement passes. -/
theorem judge_eq_zero {acc : Tally} {p : PayloadPlacement} :
    ((judge t node acc p).atRisk = 0 ∧ (judge t node acc p).unavailable = 0) ↔
      (acc.atRisk = 0 ∧ acc.unavailable = 0) ∧ Passes t node p := by
  unfold judge Passes
  cases hr : p.replica node with
  | none => simp
  | some r =>
    simp only [Option.some.injEq, forall_eq']
    by_cases hzero : remaining t node p r = 0
    · simp [hzero, saturatingAdd_one_ne_zero]
    · by_cases hlt : remaining t node p r < need t p
      · simp [hzero, hlt, saturatingAdd_one_ne_zero, UInt32.not_le.mpr hlt]
      · simp [hzero, hlt, UInt32.not_lt.mp hlt]

theorem safe_iff (placements : List PayloadPlacement) :
    (evaluate t node placements).safe = true ↔ ∀ p ∈ placements, Passes t node p := by
  have hfold : ∀ acc : Tally, ((placements.foldl (judge t node) acc).atRisk = 0 ∧
      (placements.foldl (judge t node) acc).unavailable = 0) ↔
        (acc.atRisk = 0 ∧ acc.unavailable = 0) ∧ ∀ p ∈ placements, Passes t node p := by
    induction placements with
    | nil => simp
    | cons p placements ih =>
      intro acc
      rw [List.foldl_cons, ih, judge_eq_zero, List.forall_mem_cons, and_assoc]
  show decide _ = true ↔ _
  rw [decide_eq_true_eq]
  exact (hfold ⟨0, 0, 0, 0⟩).trans (by simp)

/-! ### What it is sound for -/

/-- The counted replicas on the node. -/
def counted (t : ClusterTopology) (node : NodeId) (p : PayloadPlacement) : Nat :=
  p.replicas.countP fun r => r.usable t && decide (r.nodeId = node)

/-- The counted replicas on the other nodes: what dropping the node's replicas leaves. -/
def left (t : ClusterTopology) (node : NodeId) (p : PayloadPlacement) : Nat :=
  (p.replicas.filter fun r => r.nodeId ≠ node).countP (Replica.usable t)

/-- How many replicas the evaluation takes off. -/
def subtracted (t : ClusterTopology) (node : NodeId) (p : PayloadPlacement) : Nat :=
  if (p.replica node).any fun r => r.state.durable && t.contributesDurability node then 1 else 0

/-- Every placement with a replica on the node keeps what is required without it. -/
def Sound (t : ClusterTopology) (node : NodeId) (placements : List PayloadPlacement) : Prop :=
  ∀ p ∈ placements, (p.replica node).isSome →
    min t.config.requiredAcknowledgements.toNat p.desiredReplicas.toNat ≤ left t node p

/-- What the node has beyond the replica that is taken off is not needed. -/
def Spare (t : ClusterTopology) (node : NodeId) (placements : List PayloadPlacement) : Prop :=
  ∀ p ∈ placements, (p.replica node).isSome → counted t node p - subtracted t node p ≤
    p.usableCount t - subtracted t node p - min t.config.requiredAcknowledgements.toNat p.desiredReplicas.toNat

/-- Of no placement does the node have more counted replicas than are taken off. -/
def Accounted (t : ClusterTopology) (node : NodeId) (placements : List PayloadPlacement) : Prop :=
  ∀ p ∈ placements, (p.replica node).isSome → counted t node p ≤ subtracted t node p

variable {p : PayloadPlacement}

theorem left_add_counted : left t node p + counted t node p = p.usableCount t := by
  unfold left counted PayloadPlacement.usableCount
  rw [List.countP_filter]
  induction p.replicas with
  | nil => rfl
  | cons r replicas ih =>
    rw [List.countP_cons, List.countP_cons, List.countP_cons, ← ih]
    cases r.usable t <;> by_cases h : r.nodeId = node <;> simp [h] <;> omega

theorem need_toNat : (need t p).toNat = min t.config.requiredAcknowledgements.toNat p.desiredReplicas.toNat := by
  have hmin : ∀ a b : UInt32, (min a b).toNat = min a.toNat b.toNat := by
    intro a b
    show (if a ≤ b then a else b).toNat = _
    split_ifs with h
    · exact (Nat.min_eq_left (UInt32.le_iff_toNat_le.mp h)).symm
    · exact (Nat.min_eq_right (UInt32.le_iff_toNat_le.mp (UInt32.le_of_lt (UInt32.not_le.mp h)))).symm
  unfold need
  rw [hmin, PayloadPlacement.desired_toNat, UInt8.toNat_toUInt32]

theorem remaining_toNat {r : Replica} (hr : p.replica node = some r) :
    (remaining t node p r).toNat = min (p.usableCount t) (2 ^ 32 - 1) - subtracted t node p := by
  have hhealthy : (p.durability t).healthy.toNat = min (p.usableCount t) (2 ^ 32 - 1) := PayloadPlacement.healthy_toNat
  unfold remaining subtracted
  rw [hr, Option.any_some]
  dsimp only
  split_ifs with hdurable hzero
  · rw [hzero, UInt32.toNat_zero] at hhealthy
    rw [UInt32.toNat_zero]
    omega
  · have hpos : 1 ≤ (p.durability t).healthy := by
      rw [UInt32.le_iff_toNat_le, UInt32.toNat_one]
      have hne : (p.durability t).healthy.toNat ≠ 0 := fun e => hzero (UInt32.toNat_inj.mp e)
      omega
    rw [UInt32.toNat_sub_of_le _ _ hpos, hhealthy, UInt32.toNat_one]
  · rw [hhealthy, Nat.sub_zero]

/-- The verdict on one placement, in numbers. -/
theorem passes_iff (hsome : (p.replica node).isSome) :
    Passes t node p ↔ subtracted t node p < p.usableCount t ∧
      min t.config.requiredAcknowledgements.toNat p.desiredReplicas.toNat ≤ p.usableCount t - subtracted t node p := by
  obtain ⟨r, hr⟩ := Option.isSome_iff_exists.mp hsome
  have hpasses : Passes t node p ↔ remaining t node p r ≠ 0 ∧ need t p ≤ remaining t node p r := by
    unfold Passes
    rw [hr]
    simp only [Option.some.injEq, forall_eq']
  have hle : subtracted t node p ≤ 1 := by
    unfold subtracted
    split_ifs <;> omega
  have hrequired := t.config.requiredAcknowledgements.toNat_lt
  rw [hpasses, UInt32.le_iff_toNat_le, need_toNat, remaining_toNat hr, Ne, ← UInt32.toNat_inj, remaining_toNat hr,
    UInt32.toNat_zero]
  omega

theorem eq_of_length_le_one {α : Type} {l : List α} (h : l.length ≤ 1) {a b : α} (ha : a ∈ l) (hb : b ∈ l) : a = b := by
  match l, h with
  | [c], _ => rw [List.mem_singleton.mp ha, List.mem_singleton.mp hb]

/-- One replica on the node at most is accounted for. -/
theorem counted_le_subtracted (hone : p.replicas.countP (fun r => r.nodeId = node) ≤ 1) :
    counted t node p ≤ subtracted t node p := by
  by_cases hcounted : counted t node p = 0
  · omega
  have hle : counted t node p ≤ p.replicas.countP fun r => r.nodeId = node :=
    List.countP_mono_left fun r _ hr => (Bool.and_eq_true_iff.mp hr).2
  obtain ⟨r, hr, husable⟩ := List.countP_pos_iff.mp (Nat.pos_of_ne_zero hcounted)
  obtain ⟨husable, hnode⟩ := Bool.and_eq_true_iff.mp husable
  -- the first replica on the node is the only one
  have hfirst : p.replica node = some r := by
    have hsome : (p.replica node).isSome := List.find?_isSome.mpr ⟨r, hr, hnode⟩
    obtain ⟨r', hr'⟩ := Option.isSome_iff_exists.mp hsome
    have hmem : ∀ a ∈ p.replicas, decide (a.nodeId = node) = true →
        a ∈ p.replicas.filter fun r => decide (r.nodeId = node) := fun a ha hnode => List.mem_filter.mpr ⟨ha, hnode⟩
    rw [List.countP_eq_length_filter] at hone
    have honly := eq_of_length_le_one hone (hmem r hr hnode)
      (hmem r' (List.mem_of_find?_eq_some hr') (List.find?_some (p := fun r : Replica => decide (r.nodeId = node)) hr'))
    rw [honly]
    exact hr'
  obtain ⟨hdurable, hdevice⟩ := Bool.and_eq_true_iff.mp husable
  have hnodeId : r.nodeId = node := of_decide_eq_true hnode
  have hcontributes : t.contributesDurability node = true := by
    rw [← hnodeId]
    exact ClusterTopology.contributes_of_device hdevice
  have hsubtracted : subtracted t node p = 1 := by
    unfold subtracted
    rw [hfirst, Option.any_some, hdurable, hcontributes]
    rfl
  omega

/-- A safe verdict is sound exactly if what it overlooks is spare. -/
theorem sound_iff_spare {placements : List PayloadPlacement} (hsafe : (evaluate t node placements).safe = true) :
    Sound t node placements ↔ Spare t node placements := by
  refine forall₂_congr fun p hp => forall_congr' fun hsome => ?_
  obtain ⟨hlt, hneed⟩ := (passes_iff hsome).mp ((safe_iff placements).mp hsafe p hp)
  have hsum := @left_add_counted t node p
  omega

theorem sound_of_accounted {placements : List PayloadPlacement} (h : Accounted t node placements)
    (hsafe : (evaluate t node placements).safe = true) : Sound t node placements := by
  refine (sound_iff_spare hsafe).mpr fun p hp hsome => ?_
  rw [Nat.sub_eq_zero_of_le (h p hp hsome)]
  exact Nat.zero_le _

/-- The topology of a cluster where all of `n` replicas are required. -/
def requiring (t : ClusterTopology) (n : UInt8) : ClusterTopology :=
  { t with config := { t.config with replicationFactor := n, writeAcknowledgement := .all } }

/-- A placement of which more is counted than taken off is misjudged at the first requirement that what is left
does not meet. -/
theorem sound_requiring_iff (hsome : (p.replica node).isSome) (k : UInt8) :
    (∀ n ≤ k, (evaluate (requiring t n) node [{ p with desiredReplicas := n }]).safe = true →
        Sound (requiring t n) node [{ p with desiredReplicas := n }]) ↔
      counted t node p ≤ subtracted t node p ∨ k.toNat ≤ left t node p := by
  have hsafe : ∀ n, (evaluate (requiring t n) node [{ p with desiredReplicas := n }]).safe = true ↔
      subtracted t node p < p.usableCount t ∧ min n.toNat n.toNat ≤ p.usableCount t - subtracted t node p := by
    intro n
    rw [safe_iff, List.forall_mem_singleton]
    exact passes_iff hsome
  have hsound : ∀ n, Sound (requiring t n) node [{ p with desiredReplicas := n }] ↔
    min n.toNat n.toNat ≤ left t node p := by
    intro n
    rw [Sound, List.forall_mem_singleton]
    exact imp_iff_right hsome
  have hsum := @left_add_counted t node p
  have hk := k.toNat_lt
  simp only [hsafe, hsound, Nat.min_self, UInt8.le_iff_toNat_le]
  constructor
  · intro h
    by_contra hnot
    have hlt := h (.ofNat (left t node p + 1))
    rw [UInt8.toNat_ofNat', Nat.mod_eq_of_lt (by omega)] at hlt
    omega
  · intro h n hn
    omega

end Verdict

/-! ## The verdict page by page -/

section Pages

variable {t : ClusterTopology} {node : NodeId} {s : ClusterCatalog} {batch : Nat}

open ClusterCatalog

theorem safe_merge {total : DecommissionSafety} (rows : List (Bytes × PayloadPlacement)) :
    (total.merge (evaluate t node (rows.map Prod.snd))).safe = true ↔
      total.safe = true ∧ ∀ r ∈ rows, Passes t node r.2 := by
  show (total.safe && (evaluate t node (rows.map Prod.snd)).safe) = true ↔ _
  rw [Bool.and_eq_true, safe_iff, List.forall_mem_map]

/-- A list longer than `n` after its first `n + 1` elements. -/
theorem exists_split {α : Type} {l : List α} {n : Nat} (h : n + 1 < l.length) :
    ∃ front a rest, l = front ++ a :: rest ∧ l.take (n + 1) = front ++ [a] := by
  refine ⟨l.take n, l.get ⟨n, by omega⟩, l.drop (n + 1), ?_, ?_⟩
  · rw [List.get_eq_getElem, ← List.drop_eq_getElem_cons, List.take_append_drop]
  · rw [List.take_succ_eq_append_getElem (by omega)]
    rfl

/-- The loop judges the rows that are left, and ends. -/
theorem pages_eq (t : ClusterTopology) (node : NodeId) (batch : Nat) (hk : s.Keyed) (fuel : Nat)
    (cursor : Option ObjectId) (total : DecommissionSafety) (before rows : List (Bytes × PayloadPlacement))
    (hsplit : s.placements.toList = before ++ rows)
    (hrows : (s.placements.toList.filter fun r => (compare (resumeAfter cursor) r.1).isLE) = rows)
    (hfuel : rows.length < fuel) :
    ∃ result, pages t node s batch fuel cursor total = some result ∧
      (result.safe = true ↔ total.safe = true ∧ ∀ r ∈ rows, Passes t node r.2) := by
  induction fuel generalizing cursor total before rows with
  | zero => exact absurd hfuel (Nat.not_lt_zero _)
  | succ fuel ih =>
    obtain ⟨n, hn⟩ : ∃ n, min (max batch 1) 10000 = n + 1 := ⟨min (max batch 1) 10000 - 1, by omega⟩
    have hpage := listPlacements_eq batch hrows
    rw [hn] at hpage
    by_cases hlong : n + 1 < rows.length
    · -- a full page: the loop goes on after its last row
      obtain ⟨front, r, rest, rfl, htake⟩ := exists_split hlong
      rw [if_pos hlong, htake, List.map_append, List.map_singleton, List.getLast?_concat, Option.map_some] at hpage
      have hmem : r ∈ s.placements.toList :=
        hsplit ▸ List.mem_append_right _ (List.mem_append_right _ List.mem_cons_self)
      have hresume : resumeAfter (some r.2.objectId) = r.1 ++ [0] :=
        congrArg (· ++ [0]) (hk r.1 r.2 (Std.ExtTreeMap.mem_toList_iff_getElem?_eq_some.mp hmem))
      have hnext : (s.placements.toList.filter fun x =>
        (compare (resumeAfter (some r.2.objectId)) x.1).isLE) = rest := by
        rw [hresume]
        exact filter_after (before ++ front) Std.ExtTreeMap.ordered_keys_toList (by rw [hsplit, List.append_assoc])
      obtain ⟨result, hresult, hiff⟩ := ih (some r.2.objectId)
        (total.merge (evaluate t node ((front ++ [r]).map Prod.snd))) (before ++ (front ++ [r])) rest
        (by rw [hsplit, List.append_assoc, List.append_assoc, List.singleton_append]) hnext
        (by rw [List.length_append, List.length_cons] at hfuel; omega)
      refine ⟨result, ?_, ?_⟩
      · rw [pages, hpage]
        rw [List.map_append, List.map_singleton] at hresult
        simpa using hresult
      · rw [hiff, safe_merge, and_assoc]
        simp only [List.mem_append, List.mem_cons, or_imp, forall_and]
        tauto
    · -- the last page
      rw [if_neg hlong] at hpage
      rw [pages, hpage]
      cases rows with
      | nil => exact ⟨total, rfl, by simp⟩
      | cons r rows => exact ⟨_, rfl, safe_merge (r :: rows)⟩

variable (t node batch) in
/-- The evaluation page by page ends with the verdict on all placements. -/
theorem decommissionSafety_eq (hk : s.Keyed) {fuel : Nat} (hfuel : s.placements.rows.length < fuel) :
    ∃ result, decommissionSafety t node s batch fuel = some result ∧
      result.safe = (evaluate t node s.placements.rows).safe := by
  have hall : (s.placements.toList.filter fun r => (compare (resumeAfter none) r.1).isLE) = s.placements.toList :=
    List.filter_eq_self.mpr fun r _ => List.isLE_compareLex_nil_left
  have hlength : s.placements.toList.length < fuel := by rwa [Table.rows, List.length_map] at hfuel
  obtain ⟨result, hresult, hiff⟩ := pages_eq t node batch hk fuel none (evaluate t node []) []
    s.placements.toList rfl hall hlength
  refine ⟨summarize t node result, by rw [decommissionSafety, hresult, Option.map_some], ?_⟩
  show result.safe = _
  have hnil : (evaluate t node []).safe = true := (safe_iff []).mpr fun p hp => absurd hp List.not_mem_nil
  rw [Bool.eq_iff_iff, hiff, safe_iff s.placements.rows, Table.rows, List.forall_mem_map]
  exact ⟨And.right, fun h => ⟨hnil, h⟩⟩

end Pages

end DecommissionSafety

open DecommissionSafety ClusterCatalog

/-- The verdict is sound if the node has no more counted replicas of a payload than the one taken off, so wherever
it has at most one replica of each.  Of a payload of which it has more, some requirement makes the verdict unsound,
unless as many as can be required are left.  The evaluation page by page ends with the verdict on every placement of
the catalog. -/
theorem decommission_sound_iff (t : ClusterTopology) (node : NodeId) :
    (∀ placements, Accounted t node placements →
      (evaluate t node placements).safe = true → Sound t node placements) ∧
    (∀ placements, (∀ p ∈ placements, p.replicas.countP (fun r => r.nodeId = node) ≤ 1) →
      Accounted t node placements) ∧
    (∀ p : PayloadPlacement, (p.replica node).isSome → ∀ k : UInt8,
      ((∀ n ≤ k, (evaluate (requiring t n) node [{ p with desiredReplicas := n }]).safe = true →
          Sound (requiring t n) node [{ p with desiredReplicas := n }]) ↔
        counted t node p ≤ subtracted t node p ∨ k.toNat ≤ left t node p)) ∧
    ∀ commands batch fuel, (after commands).placements.rows.length < fuel →
      ∃ result, decommissionSafety t node (after commands) batch fuel = some result ∧
        result.safe = (evaluate t node (after commands).placements.rows).safe ∧
        (Accounted t node (after commands).placements.rows →
          result.safe = true → Sound t node (after commands).placements.rows) := by
  refine ⟨fun placements => sound_of_accounted, fun placements hone p hp _ => counted_le_subtracted (hone p hp),
    fun p => sound_requiring_iff, fun commands batch fuel hfuel => ?_⟩
  obtain ⟨result, hresult, hsafe⟩ := decommissionSafety_eq t node batch (keyed_after commands) hfuel
  exact ⟨result, hresult, hsafe, fun h => hsafe ▸ sound_of_accounted h⟩

namespace Sample

def member (node : Nat) (devices : List Nat) : NodeRecord :=
  { NodeRecord.joining ⟨.ofNat node, "", defaultStorageClass, [], ⟨100, 100, 0, 0⟩,
      devices.map (device node)⟩ 1 true .epoch with state := .healthy }

/-- One node with two devices and one with a single device; two replicas are required. -/
def topology : ClusterTopology := ⟨.ofNat 1, .default, 1, [member 1 [1, 11], member 2 [2]]⟩

end Sample

/-- One page holds the only placement, and the node has one of its two replicas. -/
theorem decommission_sound_iff_one_page :
    ∃ result, decommissionSafety Sample.topology (.ofNat 1)
        (after [.putPlacement (Sample.placement [Sample.slot 1 1, Sample.slot 2 2])]) 512 2 = some result ∧
      (result.safe = true →
        Sound Sample.topology (.ofNat 1)
          (after [.putPlacement (Sample.placement [Sample.slot 1 1, Sample.slot 2 2])]).placements.rows) := by
  obtain ⟨-, hone, -, hpaged⟩ := decommission_sound_iff Sample.topology (.ofNat 1)
  obtain ⟨result, hresult, -, hsound⟩ :=
    hpaged [.putPlacement (Sample.placement [Sample.slot 1 1, Sample.slot 2 2])] 512 2
    (by decide +kernel)
  exact ⟨result, hresult, hsound (hone _ (by decide +kernel))⟩

/-- Two of three counted replicas are on the node, and it is reported as safe to remove. -/
theorem two_replicas_on_the_node :
    (evaluate Sample.topology (.ofNat 1)
      [Sample.placement [Sample.slot 1 1, Sample.slot 1 11, Sample.slot 2 2]]).safe = true ∧
      ¬ Sound Sample.topology (.ofNat 1) [Sample.placement [Sample.slot 1 1, Sample.slot 1 11, Sample.slot 2 2]] := by
  refine ⟨by decide +kernel, fun h => ?_⟩
  have hleft := h _ List.mem_cons_self (by decide +kernel)
  exact absurd hleft (by decide +kernel)

end RecordStore.Cluster

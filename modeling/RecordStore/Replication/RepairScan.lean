import RecordStore.Cluster.Decommission
import RecordStore.Cluster.Selection

/-!
# Replication.RepairScan — the scan for payloads to repair

`schedule_repairs`.  A pass reads one page of the placements, moves the cursor behind it, and plans a repair for
each placement of the page until it has created as many tasks as it may.  What the page holds behind that point is
not looked at before the cursor has gone around.  A placement whose task is still active is planned again and
counts again, so the same placements can use up every pass.
-/

namespace RecordStore.Replication

open RecordStore.Lib RecordStore.Core RecordStore.Cluster

/-! ## The plan for one placement -/

section Plan

variable (score : Score) (localNode : Option NodeId) (t : ClusterTopology)

def drainingNodes : List NodeId := (t.nodes.filter fun n => decide (n.state = .draining)).map (·.nodeId)

def onFailedDevice (r : Replica) : Bool := (t.device r.deviceId).any fun x => decide (x.2.state = .failed)

/-- A replica on a node or a device that is being emptied, or on a failed device. -/
def leaving (r : Replica) : Bool :=
  (drainingNodes t).contains r.nodeId ||
    (t.device r.deviceId).any fun x => decide (x.2.state = .draining) || decide (x.2.state = .failed)

/-- The reason of the task, and the replica that is to be released. -/
def repairKind (p : PayloadPlacement) : ReplicaTaskKind × Option Slot :=
  if p.replicas.any (onFailedDevice t) then (.deviceFailed, none)
  else if p.replicas.any (leaving t) then (.drain, (p.replicas.find? (leaving t)).map (·.slot))
  else if p.replicas.any fun r => r.state.needsRepair && decide (r.state = .corrupt) then (.repairCorrupt, none)
  else (.repair, none)

/-- A damaged replica is rebuilt in place; otherwise a device is chosen. -/
def repairTarget (p : PayloadPlacement) : Option Slot :=
  match p.replicas.find? (·.state.needsRepair) with
  | some r => some r.slot
  | none =>
    let request :=
      { ObjectPlacementRequest.new p.objectId (max p.desiredReplicas 1) 1 p.storageClass with
        sizeHint := some p.size
        existingTargets := ((p.replicas.filter fun r => decide (r.state = .healthy)).map (·.slot)).dedup
        excludedNodes := drainingNodes t }
    match place score localNode request t with
    | .ok plan => plan.targets.head?.map (·.slot)
    | .error _ => none

/-- `plan_repair`. -/
def planRepair (id : ReplicaTaskId) (now : DateTime) (p : PayloadPlacement) : Option ReplicaTask :=
  let durability := p.durability t
  if !durability.underReplicated && !(p.replicas.any fun r => (drainingNodes t).contains r.nodeId) &&
      decide (durability.damaged = 0) then none
  -- nothing can be copied from
  else if durability.healthy = 0 then none
  else
    (repairTarget score localNode t p).map fun target =>
      let (kind, source) := repairKind t p
      { ReplicaTask.queued id p.objectId kind (.classify kind durability.healthy durability.desired) p.size now with
        targetNode := some target.1
        targetDevice := some target.2
        sourceNode := source.map (·.1)
        sourceDevice := source.map (·.2) }

end Plan

/-! ## Passes -/

/-- Bounds on one pass. -/
structure CoordinatorSettings where
  scanBatch : Nat
  enqueueBatch : Nat

/-- One pass of the scan: the views it reads, what it draws for its tasks, and which of its commands go through. -/
structure RepairPass where
  score : Score
  localNode : Option NodeId
  topology : ClusterTopology
  catalog : ClusterCatalog
  taskId : ObjectId → ReplicaTaskId
  now : ObjectId → DateTime
  accepted : ReplicaTask → Bool

/-- The loop over a page: the placements that `plan_repair` is evaluated on, each with the task that was enqueued.  It
ends with the page, once enough tasks were created, or with a command that does not go through. -/
def examine (plan : PayloadPlacement → Option ReplicaTask) (accepted : ReplicaTask → Bool) (enqueueBatch : Nat) :
    Nat → List PayloadPlacement → List (PayloadPlacement × Option ReplicaTask)
  | _, [] => []
  | created, p :: ps =>
    if enqueueBatch ≤ created then []
    else match plan p with
      | none => (p, none) :: examine plan accepted enqueueBatch created ps
      | some task =>
        -- a task that is active already is accepted, and counts
        if accepted task then (p, some task) :: examine plan accepted enqueueBatch (created + 1) ps else [(p, none)]

namespace RepairPass

def plan (x : RepairPass) (p : PayloadPlacement) : Option ReplicaTask :=
  planRepair x.score x.localNode x.topology (x.taskId p.objectId) (x.now p.objectId) p

variable (settings : CoordinatorSettings)

def page (x : RepairPass) (cursor : Option ObjectId) : PlacementPage :=
  x.catalog.listPlacements cursor settings.scanBatch

def examined (x : RepairPass) (cursor : Option ObjectId) : List (PayloadPlacement × Option ReplicaTask) :=
  examine x.plan x.accepted settings.enqueueBatch 0 (x.page settings cursor).placements

end RepairPass

section Rotation

variable (settings : CoordinatorSettings)

/-- The passes with the cursors they start from. -/
def trace : Option ObjectId → List RepairPass → List (RepairPass × Option ObjectId)
  | _, [] => []
  | cursor, x :: xs => (x, cursor) :: trace (x.page settings cursor).nextObjectId xs

/-- Everything that is evaluated in the passes. -/
def evaluations (cursor : Option ObjectId) (passes : List RepairPass) : List (PayloadPlacement × Option ReplicaTask) :=
  (trace settings cursor passes).flatMap fun x => x.1.examined settings x.2

/-- The cursor goes on from page to page and comes back to the start with the last pass. -/
inductive Rotation : Option ObjectId → List RepairPass → Prop
  | last {cursor : Option ObjectId} {x : RepairPass} : (x.page settings cursor).nextObjectId = none →
      Rotation cursor [x]
  | more {cursor : Option ObjectId} {x : RepairPass} {next : ObjectId} {xs : List RepairPass} :
    (x.page settings cursor).nextObjectId = some next → Rotation (some next) xs → Rotation cursor (x :: xs)

end Rotation

/-! ## One page -/

section Examine

variable {plan : PayloadPlacement → Option ReplicaTask} {accepted : ReplicaTask → Bool} {enqueueBatch : Nat}

/-- The placements before one are so few tasks, and all of their commands go through. -/
def Unhindered (plan : PayloadPlacement → Option ReplicaTask) (accepted : ReplicaTask → Bool)
    (enqueueBatch created : Nat) (front : List PayloadPlacement) : Prop :=
  created + front.countP (fun q => (plan q).isSome) < enqueueBatch ∧ ∀ q ∈ front, ∀ task ∈ plan q, accepted task = true

theorem examine_objects (created : Nat) (l : List PayloadPlacement) :
    (examine plan accepted enqueueBatch created l).map Prod.fst <+: l := by
  induction l generalizing created with
  | nil => exact List.prefix_rfl
  | cons p l ih =>
    unfold examine
    split_ifs with henough
    · exact List.nil_prefix
    · cases plan p with
      | none => exact List.prefix_cons_inj p |>.mpr (ih created)
      | some task =>
        dsimp only
        split_ifs
        · exact List.prefix_cons_inj p |>.mpr (ih (created + 1))
        · exact List.prefix_cons_inj p |>.mpr List.nil_prefix

theorem unhindered_none {created : Nat} {q : PayloadPlacement} (h : plan q = none) (front : List PayloadPlacement) :
    Unhindered plan accepted enqueueBatch created (q :: front) ↔
      Unhindered plan accepted enqueueBatch created front := by
  simp [Unhindered, h]

theorem unhindered_some {created : Nat} {q : PayloadPlacement} {task : ReplicaTask} (h : plan q = some task)
    (front : List PayloadPlacement) : Unhindered plan accepted enqueueBatch created (q :: front) ↔
      accepted task = true ∧ Unhindered plan accepted enqueueBatch (created + 1) front := by
  simp only [Unhindered, List.countP_cons, h, Option.isSome_some, if_true, List.forall_mem_cons, Option.mem_some_iff,
    forall_eq', Nat.add_assoc, Nat.add_comm 1]
  tauto

/-- A placement of the page is evaluated exactly if nothing hinders it, and then its task is enqueued if its command
goes through. -/
theorem examine_split (plan : PayloadPlacement → Option ReplicaTask) (accepted : ReplicaTask → Bool)
    (enqueueBatch created : Nat) (front : List PayloadPlacement)
    (p : PayloadPlacement) (rest : List PayloadPlacement) :
    (Unhindered plan accepted enqueueBatch created front →
      (p, (plan p).filter accepted) ∈ examine plan accepted enqueueBatch created (front ++ p :: rest)) ∧
    (¬ Unhindered plan accepted enqueueBatch created front →
      (examine plan accepted enqueueBatch created (front ++ p :: rest)).map Prod.fst <+: front) := by
  induction front generalizing created with
  | nil =>
    rw [List.nil_append]
    unfold examine
    split_ifs with henough
    · exact ⟨fun h => absurd h.1 (Nat.not_lt.mpr henough), fun _ => List.nil_prefix⟩
    · have hfree : Unhindered plan accepted enqueueBatch created [] :=
        ⟨Nat.not_le.mp henough, fun _ h => absurd h List.not_mem_nil⟩
      refine ⟨fun _ => ?_, fun h => absurd hfree h⟩
      cases plan p with
      | none => exact List.mem_cons_self
      | some task =>
        dsimp only
        split_ifs with hgo
        · rw [Option.filter_some, if_pos hgo]
          exact List.mem_cons_self
        · rw [Option.filter_some, if_neg hgo]
          exact List.mem_cons_self
  | cons q front ih =>
    rw [List.cons_append]
    unfold examine
    split_ifs with henough
    · exact ⟨fun h => absurd h.1 (by omega), fun _ => List.nil_prefix⟩
    · cases hq : plan q with
      | none =>
        rw [unhindered_none hq]
        exact ⟨fun h => List.mem_cons_of_mem _ ((ih created).1 h),
          fun h => (List.prefix_cons_inj q).mpr ((ih created).2 h)⟩
      | some task =>
        rw [unhindered_some hq]
        dsimp only
        split_ifs with hgo
        · exact ⟨fun h => List.mem_cons_of_mem _ ((ih (created + 1)).1 h.2),
            fun h => (List.prefix_cons_inj q).mpr ((ih (created + 1)).2 fun h' => h ⟨hgo, h'⟩)⟩
        · exact ⟨fun h => absurd h.1 hgo, fun _ => (List.prefix_cons_inj q).mpr List.nil_prefix⟩

end Examine

/-! ## A whole rotation -/

section Pages

open ClusterCatalog

variable {settings : CoordinatorSettings} {x : RepairPass} {cursor : Option ObjectId}

/-- The rows that a listing has still to show. -/
def ahead (s : ClusterCatalog) (cursor : Option ObjectId) : List (Bytes × PayloadPlacement) :=
  s.placements.toList.filter fun r => (compare (resumeAfter cursor) r.1).isLE

theorem mem_ahead {s : ClusterCatalog} (hk : s.Keyed) {r : Bytes × PayloadPlacement} (h : r ∈ ahead s cursor) :
    r.2.objectId.bytes = r.1 ∧ (compare (resumeAfter cursor) r.1).isLE = true ∧ s.placements[r.1]? = some r.2 := by
  obtain ⟨hr, hle⟩ := List.mem_filter.mp h
  have hrow := Std.ExtTreeMap.mem_toList_iff_getElem?_eq_some.mp hr
  exact ⟨hk r.1 r.2 hrow, hle, hrow⟩

/-- A payload that is there and not yet behind the cursor is in the page or behind it; a page ends the rotation or
moves the cursor to its last row. -/
theorem page_split (settings : CoordinatorSettings) (x : RepairPass) (cursor : Option ObjectId) :
    ∃ rows rest, ahead x.catalog cursor = rows ++ rest ∧ (x.page settings cursor).placements = rows.map Prod.snd ∧
      (((x.page settings cursor).nextObjectId = none ∧ rest = []) ∨
        ∃ front r, rows = front ++ [r] ∧ (x.page settings cursor).nextObjectId = some r.2.objectId) := by
  obtain ⟨n, hn⟩ : ∃ n, min (max settings.scanBatch 1) 10000 = n + 1 :=
    ⟨min (max settings.scanBatch 1) 10000 - 1, by omega⟩
  have hpage := listPlacements_eq settings.scanBatch (show ahead x.catalog cursor = ahead x.catalog cursor from rfl)
  rw [hn] at hpage
  by_cases hlong : n + 1 < (ahead x.catalog cursor).length
  · obtain ⟨front, r, rest, heq, htake⟩ := DecommissionSafety.exists_split hlong
    rw [if_pos hlong, htake] at hpage
    refine ⟨front ++ [r], rest, ?_, congrArg PlacementPage.placements hpage, .inr ⟨front, r, rfl, ?_⟩⟩
    · rw [heq, List.append_assoc, List.singleton_append]
    · rw [RepairPass.page, hpage, List.map_append, List.map_singleton, List.getLast?_concat, Option.map_some]
  · rw [if_neg hlong] at hpage
    exact ⟨ahead x.catalog cursor, [], (List.append_nil _).symm, congrArg PlacementPage.placements hpage,
      .inl ⟨congrArg PlacementPage.nextObjectId hpage, rfl⟩⟩

theorem length_page_le (settings : CoordinatorSettings) (x : RepairPass) (cursor : Option ObjectId) :
    (x.page settings cursor).placements.length ≤ min (max settings.scanBatch 1) 10000 := by
  rw [RepairPass.page,
    listPlacements_eq settings.scanBatch (show ahead x.catalog cursor = ahead x.catalog cursor from rfl)]
  split_ifs with hlong
  · rw [List.length_map, List.length_take]
    exact Nat.min_le_left _ _
  · rw [List.length_map]
    exact Nat.not_lt.mp hlong

theorem ahead_ordered (s : ClusterCatalog) (cursor : Option ObjectId) :
    (ahead s cursor).Pairwise fun a b => compare a.1 b.1 = .lt :=
  Std.ExtTreeMap.ordered_keys_toList.filter _

/-- What is evaluated was read with the page. -/
theorem mem_page_of_examined {y : PayloadPlacement × Option ReplicaTask} (h : y ∈ x.examined settings cursor) :
    y.1 ∈ (x.page settings cursor).placements :=
  (examine_objects 0 _).subset (List.mem_map_of_mem h)

theorem le_of_examined (hk : x.catalog.Keyed) {y : PayloadPlacement × Option ReplicaTask}
    (h : y ∈ x.examined settings cursor) : (compare (resumeAfter cursor) y.1.objectId.bytes).isLE = true := by
  obtain ⟨rows, rest, hahead, hpage, -⟩ := page_split settings x cursor
  obtain ⟨r, hr, heq⟩ := List.mem_map.mp (hpage ▸ mem_page_of_examined h)
  obtain ⟨hid, hle, -⟩ := mem_ahead hk (hahead ▸ List.mem_append_left rest hr)
  rwa [← heq, hid]

/-- A row of the page is evaluated exactly if nothing before it hinders that. -/
theorem examined_iff (hk : x.catalog.Keyed) {f g rest : List (Bytes × PayloadPlacement)} {r : Bytes × PayloadPlacement}
    (hahead : ahead x.catalog cursor = (f ++ r :: g) ++ rest)
    (hpage : (x.page settings cursor).placements = (f ++ r :: g).map Prod.snd) :
    ((∃ y ∈ x.examined settings cursor, y.1.objectId = r.2.objectId) ↔
        Unhindered x.plan x.accepted settings.enqueueBatch 0 (f.map Prod.snd)) ∧
      (Unhindered x.plan x.accepted settings.enqueueBatch 0 (f.map Prod.snd) →
        (r.2, (x.plan r.2).filter x.accepted) ∈ x.examined settings cursor) := by
  rw [List.map_append, List.map_cons] at hpage
  obtain ⟨hfree, hhindered⟩ := examine_split x.plan x.accepted settings.enqueueBatch 0
    (f.map Prod.snd) r.2 (g.map Prod.snd)
  rw [RepairPass.examined, hpage]
  refine ⟨⟨?_, fun h => ⟨_, hfree h, rfl⟩⟩, hfree⟩
  rintro ⟨y, hy, hid⟩
  by_contra hno
  -- it would be evaluated as one of the rows before it, which have smaller keys
  obtain ⟨r', hr', heq⟩ := List.mem_map.mp ((hhindered hno).subset (List.mem_map_of_mem hy))
  have hordered := ahead_ordered x.catalog cursor
  rw [hahead, List.append_assoc] at hordered
  have hlt := (List.pairwise_append.mp hordered).2.2 r' hr' r List.mem_cons_self
  have hmem : ∀ z ∈ f ++ r :: g, z ∈ ahead x.catalog cursor := fun z hz => hahead ▸ List.mem_append_left rest hz
  rw [← (mem_ahead hk (hmem r' (List.mem_append_left _ hr'))).1, heq, hid,
    (mem_ahead hk (hmem r (List.mem_append_right _ List.mem_cons_self))).1,
    show compare r.1 r.1 = .eq from Std.ReflCmp.compare_self] at hlt
  cases hlt

theorem row_ahead {s : ClusterCatalog} {id : ObjectId} {p : PayloadPlacement} (hp : s.placement id = some p)
    (hle : (compare (resumeAfter cursor) id.bytes).isLE = true) : (id.bytes, p) ∈ ahead s cursor :=
  List.mem_filter.mpr ⟨Std.ExtTreeMap.mem_toList_iff_getElem?_eq_some.mpr hp, hle⟩

end Pages

section Rotations

open ClusterCatalog

variable {settings : CoordinatorSettings} {cursor : Option ObjectId} {passes : List RepairPass}

theorem evaluations_cons (x : RepairPass) : evaluations settings cursor (x :: passes) =
    x.examined settings cursor ++ evaluations settings (x.page settings cursor).nextObjectId passes := rfl

/-- A rotation evaluates nothing behind its cursor. -/
theorem Rotation.le_of_evaluated (hrot : Rotation settings cursor passes) (hk : ∀ x ∈ passes, x.catalog.Keyed)
    {y : PayloadPlacement × Option ReplicaTask} (hy : y ∈ evaluations settings cursor passes) :
    (compare (resumeAfter cursor) y.1.objectId.bytes).isLE = true := by
  induction hrot with
  | last hnone =>
    rw [evaluations_cons, List.mem_append] at hy
    rcases hy with hy | hy
    · exact le_of_examined (hk _ List.mem_cons_self) hy
    · cases hy
  | @more cursor x next xs hnext hrest ih =>
    rw [evaluations_cons, List.mem_append] at hy
    rcases hy with hy | hy
    · exact le_of_examined (hk _ List.mem_cons_self) hy
    · rw [hnext] at hy
      have hlater := ih (fun z hz => hk z (List.mem_cons_of_mem _ hz)) hy
      obtain ⟨rows, rest, hahead, -, ⟨hnone, -⟩ | ⟨front, r, rfl, hlast⟩⟩ := page_split settings x cursor
      · cases hnone.symm.trans hnext
      · obtain rfl := Option.some.inj (hlast.symm.trans hnext)
        have hr : r ∈ ahead x.catalog cursor :=
          hahead ▸ List.mem_append_left rest (List.mem_append_right front List.mem_cons_self)
        obtain ⟨hid, hle, -⟩ := mem_ahead (hk _ List.mem_cons_self) hr
        have hlt : compare r.2.objectId.bytes y.1.objectId.bytes = .lt := isLE_compare_append_zero.mp hlater
        rw [hid] at hlt
        exact Std.TransCmp.isLE_trans hle (by rw [hlt]; rfl)

/-- A payload that is there throughout and not behind the cursor is in the page of one pass. -/
theorem Rotation.covers (hrot : Rotation settings cursor passes) (hk : ∀ x ∈ passes, x.catalog.Keyed) {id : ObjectId}
    (hthere : ∀ x ∈ passes, (x.catalog.placement id).isSome = true)
    (hle : (compare (resumeAfter cursor) id.bytes).isLE = true) :
    ∃ x c front p rest, (x, c) ∈ trace settings cursor passes ∧ (x.page settings c).placements = front ++ p :: rest ∧
      x.catalog.placement id = some p ∧
      ((∃ y ∈ evaluations settings cursor passes, y.1.objectId = id) ↔
        Unhindered x.plan x.accepted settings.enqueueBatch 0 front) ∧
      (Unhindered x.plan x.accepted settings.enqueueBatch 0 front →
        (p, (x.plan p).filter x.accepted) ∈ evaluations settings cursor passes) := by
  induction hrot with
  | @last cursor x hnone =>
    have hkx := hk x List.mem_cons_self
    obtain ⟨p, hp⟩ := Option.isSome_iff_exists.mp (hthere x List.mem_cons_self)
    obtain ⟨rows, rest, hahead, hpage, ⟨-, rfl⟩ | ⟨front, r, -, hsome⟩⟩ := page_split settings x cursor
    · have hmem : (id.bytes, p) ∈ rows := (List.append_nil rows ▸ hahead) ▸ row_ahead hp hle
      obtain ⟨f, g, rfl⟩ := List.append_of_mem hmem
      obtain ⟨hiff, hfree⟩ := examined_iff hkx hahead hpage
      rw [Id.bytes_inj.mp (hkx id.bytes p hp)] at hiff
      rw [List.map_append, List.map_cons] at hpage
      exact ⟨x, cursor, f.map Prod.snd, p, g.map Prod.snd, List.mem_cons_self, hpage, hp,
        by rw [evaluations_cons]; simpa [evaluations, trace] using hiff,
        fun h => List.mem_append_left _ (hfree h)⟩
    · cases hsome.symm.trans hnone
  | @more cursor x next xs hnext hrest ih =>
    have hkx := hk x List.mem_cons_self
    have hks := fun z hz => hk z (List.mem_cons_of_mem x hz)
    obtain ⟨p, hp⟩ := Option.isSome_iff_exists.mp (hthere x List.mem_cons_self)
    have hid : p.objectId = id := Id.bytes_inj.mp (hkx id.bytes p hp)
    obtain ⟨rows, rest, hahead, hpage, ⟨hnone, -⟩ | ⟨front, r, hrows, hlast⟩⟩ := page_split settings x cursor
    · cases hnone.symm.trans hnext
    obtain rfl := Option.some.inj (hlast.symm.trans hnext)
    have hordered := ahead_ordered x.catalog cursor
    rw [hahead] at hordered
    obtain ⟨hinside, -, hacross⟩ := List.pairwise_append.mp hordered
    have hr : r ∈ rows := hrows ▸ List.mem_append_right front List.mem_cons_self
    have hrkey : r.2.objectId.bytes = r.1 := (mem_ahead hkx (hahead ▸ List.mem_append_left rest hr)).1
    rcases List.mem_append.mp (hahead ▸ row_ahead hp hle) with hmem | hmem
    · -- in this page, so behind the cursor of the later ones
      have hbehind : compare r.1 id.bytes ≠ .lt := by
        intro hlt
        rw [hrows] at hmem hinside
        rcases List.mem_append.mp hmem with hfront | hself
        · have hback := (List.pairwise_append.mp hinside).2.2 _ hfront r List.mem_cons_self
          rw [show compare r.1 id.bytes = (compare id.bytes r.1).swap from Std.OrientedCmp.eq_swap, hback] at hlt
          cases hlt
        · rw [← List.mem_singleton.mp hself, show compare id.bytes id.bytes = .eq from Std.ReflCmp.compare_self] at hlt
          cases hlt
      have hnever : ∀ y ∈ evaluations settings (some r.2.objectId) xs, y.1.objectId ≠ id := by
        rintro y hy rfl
        have hle' := hrest.le_of_evaluated hks hy
        exact hbehind (hrkey ▸ isLE_compare_append_zero.mp hle')
      obtain ⟨f, g, rfl⟩ := List.append_of_mem hmem
      obtain ⟨hiff, hfree⟩ := examined_iff hkx hahead hpage
      rw [hid] at hiff
      rw [List.map_append, List.map_cons] at hpage
      refine ⟨x, cursor, f.map Prod.snd, p, g.map Prod.snd, List.mem_cons_self, hpage, hp, ?_,
        fun h => List.mem_append_left _ (hfree h)⟩
      rw [← hiff, evaluations_cons, hnext]
      constructor
      · rintro ⟨y, hy, hyid⟩
        exact ⟨y, (List.mem_append.mp hy).resolve_right fun h => hnever y h hyid, hyid⟩
      · rintro ⟨y, hy, hyid⟩
        exact ⟨y, List.mem_append_left _ hy, hyid⟩
    · -- behind this page
      have hlt := hacross r hr _ hmem
      have hle' : (compare (resumeAfter (some r.2.objectId)) id.bytes).isLE = true :=
        isLE_compare_append_zero.mpr (hrkey ▸ hlt)
      have hnever : ∀ y ∈ x.examined settings cursor, y.1.objectId ≠ id := by
        rintro y hy rfl
        obtain ⟨r', hr', heq⟩ := List.mem_map.mp (hpage ▸ mem_page_of_examined hy)
        have hself := hacross r' hr' _ hmem
        rw [← (mem_ahead hkx (hahead ▸ List.mem_append_left rest hr')).1, heq,
          show compare y.1.objectId.bytes y.1.objectId.bytes = .eq from Std.ReflCmp.compare_self] at hself
        cases hself
      obtain ⟨x', c, front', p', rest', htrace, hpage', hp', hiff, hfree⟩ :=
        ih hks (fun z hz => hthere z (List.mem_cons_of_mem x hz)) hle'
      refine ⟨x', c, front', p', rest', List.mem_cons_of_mem _ (hnext ▸ htrace), hpage', hp', ?_, fun h => ?_⟩
      · rw [← hiff, evaluations_cons, hnext]
        constructor
        · rintro ⟨y, hy, hyid⟩
          exact ⟨y, (List.mem_append.mp hy).resolve_left fun h => hnever y h hyid, hyid⟩
        · rintro ⟨y, hy, hyid⟩
          exact ⟨y, List.mem_append_right _ hy, hyid⟩
      · rw [evaluations_cons, hnext]
        exact List.mem_append_right _ (hfree h)

end Rotations

/-- In a rotation of the cursor, whatever the catalogs and views that its passes read, as long as they are those of
committed commands: a payload with a placement throughout is in the page of one pass, and its placement is evaluated,
and its task enqueued if the command goes through, exactly if in that page fewer tasks than the bound are planned before
it and their commands go through.  With a bound no smaller than the page, only a failing command hinders it. -/
theorem repair_scan_covers_iff (settings : CoordinatorSettings) {passes : List RepairPass}
    (hrot : Rotation settings none passes)
    (hreached : ∀ x ∈ passes, ∃ commands, x.catalog = ClusterCatalog.after commands) {id : ObjectId}
    (hthere : ∀ x ∈ passes, (x.catalog.placement id).isSome = true) :
    ∃ x cursor front p rest, (x, cursor) ∈ trace settings none passes ∧
      (x.page settings cursor).placements = front ++ p :: rest ∧ x.catalog.placement id = some p ∧
      ((∃ y ∈ evaluations settings none passes, y.1.objectId = id) ↔
        front.countP (fun q => (x.plan q).isSome) < settings.enqueueBatch ∧
        ∀ q ∈ front, ∀ task ∈ x.plan q, x.accepted task = true) ∧
      ((∃ y ∈ evaluations settings none passes, y.1.objectId = id) →
        (p, (x.plan p).filter x.accepted) ∈ evaluations settings none passes) ∧
      (min (max settings.scanBatch 1) 10000 ≤ settings.enqueueBatch → (∀ task, x.accepted task = true) →
        ∃ y ∈ evaluations settings none passes, y.1.objectId = id) := by
  have hk : ∀ x ∈ passes, x.catalog.Keyed := by
    intro x hx
    obtain ⟨commands, h⟩ := hreached x hx
    rw [h]
    exact ClusterCatalog.keyed_after commands
  obtain ⟨x, cursor, front, p, rest, htrace, hpage, hp, hiff, hfree⟩ :=
    hrot.covers hk hthere List.isLE_compareLex_nil_left
  have hunhindered : Unhindered x.plan x.accepted settings.enqueueBatch 0 front ↔
      front.countP (fun q => (x.plan q).isSome) < settings.enqueueBatch ∧
      ∀ q ∈ front, ∀ task ∈ x.plan q, x.accepted task = true := by
    rw [Unhindered, Nat.zero_add]
  refine ⟨x, cursor, front, p, rest, htrace, hpage, hp, hiff.trans hunhindered, fun h => hfree (hiff.mp h), ?_⟩
  intro hbatch haccepted
  refine hiff.mpr (hunhindered.mpr ⟨?_, fun _ _ task _ => haccepted task⟩)
  have hlength := length_page_le settings x cursor
  rw [hpage, List.length_append, List.length_cons] at hlength
  have hcount := front.countP_le_length (p := fun q => (x.plan q).isSome)
  omega

namespace Sample

/-- A payload that has lost one of its two replicas. -/
def halved (id : Nat) : PayloadPlacement :=
  .new (.ofNat id) 1 Cluster.Sample.checksum 2 defaultStorageClass
    [.healthyOn (.ofNat 1) (.ofNat 1) 1 Cluster.Sample.checksum .epoch,
      { Replica.healthyOn (.ofNat 2) (.ofNat 2) 1 Cluster.Sample.checksum .epoch with state := .missing }] .epoch

/-- A pass over the payloads 1 and 2, behind further commands. -/
def repairPass (commands : List ClusterCommand) : RepairPass where
  score := fun _ _ _ _ => 0
  localNode := none
  topology := Cluster.Sample.topology
  catalog := ClusterCatalog.after ([.putPlacement (halved 1), .putPlacement (halved 2)] ++ commands)
  taskId := fun _ => .ofNat 3
  now := fun _ => .epoch
  accepted := fun _ => true

/-- What is planned for the first of them. -/
def firstRepair : ReplicaTask :=
  { ReplicaTask.queued (.ofNat 3) (.ofNat 1) .repair .critical 1 .epoch with
    targetNode := some (.ofNat 2)
    targetDevice := some (.ofNat 2) }

end Sample

open Sample

theorem repair_scan_covers_pair :
    ∃ y ∈ evaluations ⟨2, 2⟩ none [repairPass []], y.1.objectId = .ofNat 2 := by
  obtain ⟨x, cursor, -, -, -, htrace, -, -, -, -, hall⟩ := repair_scan_covers_iff ⟨2, 2⟩
    (.last (by decide +kernel : ((repairPass []).page ⟨2, 2⟩ none).nextObjectId = none))
    (fun x hx => ⟨_, congrArg RepairPass.catalog (List.mem_singleton.mp hx)⟩)
    (fun x hx =>
      List.mem_singleton.mp hx ▸ (by decide +kernel : ((repairPass []).catalog.placement (.ofNat 2)).isSome = true))
  obtain rfl : x = repairPass [] := congrArg Prod.fst (List.mem_singleton.mp htrace)
  exact hall (by decide) fun _ => rfl

/-- With a bound of one task a pass ends at the first payload, in the next rotation as well, when the task of the first
payload is waiting to be executed and is not created again. -/
theorem repair_scan_starves :
    (repairPass []).plan (halved 1) = some firstRepair ∧ ((repairPass []).plan (halved 2)).isSome = true ∧
    Rotation ⟨512, 1⟩ none [repairPass []] ∧ Rotation ⟨512, 1⟩ none [repairPass [.enqueueTask firstRepair]] ∧
    (∀ y ∈ evaluations ⟨512, 1⟩ none [repairPass []], y.1.objectId ≠ .ofNat 2) ∧
    ∀ y ∈ evaluations ⟨512, 1⟩ none [repairPass [.enqueueTask firstRepair]], y.1.objectId ≠ .ofNat 2 :=
  ⟨by decide +kernel, by decide +kernel, .last (by decide +kernel), .last (by decide +kernel), by decide +kernel,
    by decide +kernel⟩

end RecordStore.Replication

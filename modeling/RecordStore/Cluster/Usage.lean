import RecordStore.Cluster.History

/-!
# Cluster.Usage — the counters of payloads, tombstones and bytes

Each command that writes a placement or a tombstone adjusts the counters by what the row it replaces and the row it
writes contribute.  As long as the totals fit in the counters, the counters are the totals and nothing is clamped.
-/

namespace RecordStore.Cluster

open RecordStore.Lib RecordStore.Core Tx ClusterCatalog

/-! ## Meters -/

/-- `PLACEMENT_COUNT`, `TOMBSTONE_COUNT`, `LOGICAL_BYTES` and `PHYSICAL_BYTES`. -/
inductive Meter where
  | placements
  | tombstones
  | logicalBytes
  | physicalBytes

namespace Meter

/-- The key of the counter. -/
def name : Meter → String
  | placements => "placements"
  | tombstones => "tombstones"
  | logicalBytes => "logical_bytes"
  | physicalBytes => "physical_bytes"

/-- What the counter should say. -/
def total (s : ClusterCatalog) : Meter → Nat
  | placements => s.placements.rows.length
  | tombstones => s.tombstones.rows.length
  | logicalBytes => (s.placements.rows.map fun p => p.size.toNat).sum
  | physicalBytes => (s.placements.rows.map fun p => (Cluster.physicalBytes p).toNat).sum

/-- What a placement and a tombstone contribute. -/
def share (p : Option PayloadPlacement) (t : Option Tombstone) : Meter → Nat
  | placements => p.elim 0 fun _ => 1
  | tombstones => t.elim 0 fun _ => 1
  | logicalBytes => p.elim 0 fun p => p.size.toNat
  | physicalBytes => p.elim 0 fun p => (Cluster.physicalBytes p).toNat

/-- The counters that are not meters. -/
theorem name_ne (m : Meter) : m.name ∉ ["cluster_map_epoch", "next_member_id", "under_replicated",
    "unavailable_payloads", "active_tasks", "parked_tasks"] := by
  cases m <;> decide

end Meter

section Totals

variable {V : Type} {t t' : Table Bytes V} {old new : Option V}

theorem sum_swap (h : Table.Swap t t' old new) (f : V → Nat) :
    (t'.rows.map f).sum + old.elim 0 f = (t.rows.map f).sum + new.elim 0 f := by
  have hsum : ∀ t : Table Bytes V, t.sumOver (fun _ => true) f = (t.rows.map f).sum := fun t => by
    rw [Table.sumOver, List.filter_true]
  have hshare : ∀ o : Option V, o.elim 0 (Table.share (fun _ => true) f) = o.elim 0 f := by
    rintro (_ | v) <;> rfl
  have hswap := h (fun _ => true) f
  rwa [hsum, hsum, hshare, hshare] at hswap

theorem length_swap (h : Table.Swap t t' old new) :
    t'.rows.length + old.elim 0 (fun _ => 1) = t.rows.length + new.elim 0 fun _ => 1 := by
  have hsum := sum_swap h fun _ => 1
  simpa using hsum

end Totals

variable {s s' : ClusterCatalog} {c : ClusterCommand} {o : ClusterOutcome}

/-- The totals after a placement and a tombstone were replaced. -/
theorem total_swap {p p' : Option PayloadPlacement} {t t' : Option Tombstone}
    (hp : Table.Swap s.placements s'.placements p p')
    (ht : Table.Swap s.tombstones s'.tombstones t t') (m : Meter) :
    m.total s' + m.share p t = m.total s + m.share p' t' := by
  cases m with
  | placements => exact length_swap hp
  | tombstones => exact length_swap ht
  | logicalBytes => exact sum_swap hp _
  | physicalBytes => exact sum_swap hp _

/-! ## Commands about no payload -/

/-- What the four counters say. -/
def ClusterCatalog.usage (s : ClusterCatalog) : Meter → UInt64 := fun m => s.readCounter m.name

theorem usage_congr (h : s'.counters = s.counters) : s'.usage = s.usage := by
  unfold ClusterCatalog.usage readCounter
  rw [h]

section Others

variable {name : String} (h : name ∈ ["cluster_map_epoch", "next_member_id", "under_replicated", "unavailable_payloads",
  "active_tasks", "parked_tasks"])

include h

theorem usage_setCounter (s : ClusterCatalog) (value : UInt64) : (s.setCounter name value).usage = s.usage := by
  funext m
  exact (readCounter_setCounter _ _ _ _).trans (if_neg fun e : m.name = name => m.name_ne (e ▸ h))

theorem usage_adjustCounter (s : ClusterCatalog) (delta : Int) : (s.adjustCounter name delta).usage = s.usage := by
  funext m
  exact (readCounter_adjustCounter _ _ _ _).trans (if_neg fun e : m.name = name => m.name_ne (e ▸ h))

end Others

theorem usage_insertTaskQueueEntry (t : ReplicaTask) (s : ClusterCatalog) :
    (s.insertTaskQueueEntry t).usage = s.usage := by
  rw [insertTaskQueueEntry_eq]
  rfl

theorem usage_retireTask (before after : ReplicaTask) (s : ClusterCatalog) :
    (retireTask before after s).usage = s.usage := by
  rw [retireTask_eq]
  split_ifs
  · exact usage_adjustCounter (by decide) s (-1)
  · rfl

/-- A command about no payload leaves the meters alone. -/
theorem keeps_usage (hp : c.payload = none) : Keeps usage (applyCommandTx c) := by
  cases c
  all_goals first | (cases hp; done) | skip
  all_goals simp only [applyCommandTx, initializeCluster, registerNode, updateNode, setNodeState, registerDevice,
    setDeviceState, forgetNode, enqueueTask, requireNode, requireConfig, requireTask, recountDurability]
  -- each body is a sequence of reads, checks and writes to other tables and counters
  all_goals (
    repeat' with_reducible first
      | exact keeps_pure _
      | exact keeps_read _
      | exact keeps_okOr _ _
      | exact keeps_ofExcept _ _
      | exact keeps_refuse _ _
      | exact keeps_ensure _
      | exact keeps_throw _
      | apply keeps_ite
      | apply keeps_when
      | apply keeps_map
      | refine keeps_bind ?_ fun _ => ?_
      | refine keeps_modify fun _ => ?_
      | split)
  all_goals
    try simp (disch := decide) only [advanceClusterMapEpoch, usage_setCounter, usage_adjustCounter,
      usage_insertTaskQueueEntry, usage_retireTask]
  all_goals exact usage_congr rfl

/-! ## What a command asks of the meters -/

section Asked

variable (existing : Option PayloadPlacement) (p p' : PayloadPlacement) (buried : Option Tombstone)

/-- `put_placement` over the placement it finds. -/
def askedByPut : Meter → Int
  | .placements => if existing = none then 1 else 0
  | .tombstones => 0
  | .logicalBytes => p.size.toNat - existing.elim 0 fun previous => previous.size.toNat
  | .physicalBytes => (physicalBytes p).toNat - existing.elim 0 fun previous => (physicalBytes previous).toNat

/-- `write_placement` of `p'` by a command that has read `p`. -/
def askedByRevision : Meter → Int
  | .physicalBytes => (physicalBytes p').toNat - (physicalBytes p).toNat
  | _ => 0

/-- `delete_placement` of `p`, over the tombstone it finds. -/
def askedByDeletion : Meter → Int
  | .placements => -1
  | .tombstones => if buried = none then 1 else 0
  | .logicalBytes => -p.size.toNat
  | .physicalBytes => -(physicalBytes p).toNat

def askedByPurge : Meter → Int
  | .tombstones => if buried = none then 0 else -1
  | _ => 0

end Asked

/-- Each meter is adjusted by what is asked of it. -/
def ClusterCatalog.Adjusts (s : ClusterCatalog) (asked : Meter → Int) (s' : ClusterCatalog) : Prop :=
  ∀ m : Meter, s'.readCounter m.name = clamped (s.readCounter m.name) (asked m)

/-- What a command does to the placements and the tombstones, and what it asks of the meters. -/
inductive UsageStep (s : ClusterCatalog) : ClusterCommand → (Meter → Int) → ClusterCatalog → Prop
  | idle {c : ClusterCommand} {s' : ClusterCatalog} (hplacements : s'.placements = s.placements)
      (htombstones : s'.tombstones = s.tombstones) (hmeters : s'.usage = s.usage) : UsageStep s c (fun _ => 0) s'
  | put {p : PayloadPlacement} {s' : ClusterCatalog}
      (hplacements : s'.placements = s.placements.insert p.objectId.bytes p)
      (htombstones : s'.tombstones = s.tombstones) (hmeters : s.Adjusts (askedByPut (s.placement p.objectId) p) s') :
      UsageStep s (.putPlacement p) (askedByPut (s.placement p.objectId) p) s'
  -- no revision changes the size of the payload
  | revise {c : ClusterCommand} {id : ObjectId} {p p' : PayloadPlacement} {s' : ClusterCatalog}
      (hc : c.revised = some id)
      (hp : s.placement id = some p) (hid : p'.objectId = p.objectId) (hsize : p'.size = p.size)
      (hplacements : s'.placements = s.placements.insert p'.objectId.bytes p')
      (htombstones : s'.tombstones = s.tombstones)
      (hmeters : s.Adjusts (askedByRevision p p') s') : UsageStep s c (askedByRevision p p') s'
  | delete {id : ObjectId} {time : DateTime} {p : PayloadPlacement} {t : Tombstone} {s' : ClusterCatalog}
      (hp : s.placement id = some p) (hplacements : s'.placements = s.placements.erase id.bytes)
      (htombstones : s'.tombstones = s.tombstones.insert id.bytes t)
      (hmeters : s.Adjusts (askedByDeletion p (s.tombstone id)) s') :
      UsageStep s (.deletePlacement id time) (askedByDeletion p (s.tombstone id)) s'
  | acknowledge {id : ObjectId} {node : NodeId} {time : DateTime} {t t' : Tombstone} {s' : ClusterCatalog}
      (ht : s.tombstone id = some t) (hplacements : s'.placements = s.placements)
      (htombstones : s'.tombstones = s.tombstones.insert id.bytes t') (hmeters : s'.usage = s.usage) :
      UsageStep s (.acknowledgeTombstone id node time) (fun _ => 0) s'
  | purge {id : ObjectId} {s' : ClusterCatalog} (hplacements : s'.placements = s.placements)
      (htombstones : s'.tombstones = s.tombstones.erase id.bytes)
      (hmeters : s.Adjusts (askedByPurge (s.tombstone id)) s') :
      UsageStep s (.purgeTombstone id) (askedByPurge (s.tombstone id)) s'

theorem readCounter_writePlacement (s : ClusterCatalog) (p : PayloadPlacement) (before : UInt64) (name : String) :
    (s.writePlacement p before).readCounter name =
      if name = "physical_bytes" then
        clamped (s.readCounter "physical_bytes") ((physicalBytes p).toNat - before.toNat)
      else s.readCounter name :=
  readCounter_adjustCounter s "physical_bytes" name _

/-- A revision writes the placement back, after it may have dropped rows of the index. -/
theorem usageStep_revise {s₁ : ClusterCatalog} {id : ObjectId} {p p' : PayloadPlacement} (hc : c.revised = some id)
    (hp : s.placement id = some p) (hid : p'.objectId = p.objectId) (hsize : p'.size = p.size)
    (hplacements : s₁.placements = s.placements) (htombstones : s₁.tombstones = s.tombstones)
    (hcounters : s₁.counters = s.counters) : ∃ asked, UsageStep s c asked (s₁.writePlacement p' (physicalBytes p)) := by
  refine ⟨_, .revise hc hp hid hsize (hplacements ▸ rfl) htombstones fun m => ?_⟩
  have hsame : ∀ name, s₁.readCounter name = s.readCounter name := fun name => by
    unfold readCounter
    rw [hcounters]
  rw [readCounter_writePlacement, hsame, hsame]
  cases m <;> simp [Meter.name, askedByRevision, clamped_zero]

theorem usageStep_put {p : PayloadPlacement} (h : Returns (putPlacement p) s o s') :
    UsageStep s (.putPlacement p) (askedByPut (s.placement p.objectId) p) s' := by
  simp only [putPlacement, returns_bind, returns_read] at h
  obtain ⟨_, s, ⟨rfl, rfl⟩, h⟩ := h
  cases hp : s.placement p.objectId
  all_goals
    rw [hp] at h
    simp only [returns_bind, returns_modify, returns_pure] at h
    obtain ⟨_, _, rfl, _, _, rfl, -, rfl⟩ := h
    rw [← hp]
    refine .put rfl rfl fun m => ?_
    rw [hp, readCounter_writePlacement]
    cases m <;> simp [Meter.name, askedByPut, readCounter_adjustCounter, clamped_zero]

theorem usageStep_delete {id : ObjectId} {time : DateTime} (h : Returns (deletePlacement id time) s o s') :
    ∃ asked, UsageStep s (.deletePlacement id time) asked s' := by
  simp only [deletePlacement, returns_bind, returns_read] at h
  obtain ⟨found, s, ⟨hfound, rfl⟩, h⟩ := h
  cases found with
  | none =>
    obtain ⟨-, rfl⟩ := returns_pure.mp h
    exact ⟨_, .idle rfl rfl rfl⟩
  | some p =>
    simp only [returns_bind, returns_read, returns_modify, returns_when, returns_pure] at h
    obtain ⟨_, s, ⟨rfl, rfl⟩, _, _, rfl, _, _, ⟨hburied, rfl⟩ | ⟨hburied, rfl⟩, _, _, rfl, _, _, rfl, _,
      _, rfl, -, rfl⟩ := h
    all_goals
      refine ⟨_, .delete hfound.symm rfl rfl fun m => ?_⟩
      rw [show s.tombstone id = s.tombstones[id.bytes]? from rfl]
    · show (adjustCounter "physical_bytes" _ (adjustCounter "logical_bytes" _ (adjustCounter "placements" (-1)
        (adjustCounter "tombstones" 1 s)))).readCounter m.name = _
      cases m <;> simp [Meter.name, askedByDeletion, readCounter_adjustCounter, hburied]
    · show (adjustCounter "physical_bytes" _ (adjustCounter "logical_bytes" _
        (adjustCounter "placements" (-1) s))).readCounter m.name = _
      cases m <;> simp [Meter.name, askedByDeletion, readCounter_adjustCounter, hburied, clamped_zero]

/-- Every command that succeeds is a step. -/
theorem usageStep_of_returns (h : Returns (applyCommandTx c) s o s') : ∃ asked, UsageStep s c asked s' := by
  cases c with
  | putPlacement p => exact ⟨_, usageStep_put h⟩
  | deletePlacement id time => exact usageStep_delete h
  | upsertReplica | setDesiredReplicas =>
    simp only [applyCommandTx, returns_updatePlacement, returns_pure] at h
    obtain ⟨p, _, _, hp, ⟨rfl, rfl⟩, rfl, -⟩ := h
    exact usageStep_revise rfl hp rfl rfl rfl rfl rfl
  | setReplicaState | setReplicaStateOnDevice =>
    simp only [applyCommandTx, setStateWhere, returns_updatePlacement, returns_bind, returns_okOr, returns_pure] at h
    obtain ⟨p, _, _, hp, ⟨r, _, ⟨-, rfl⟩, rfl, rfl⟩, rfl, -⟩ := h
    exact usageStep_revise rfl hp rfl rfl rfl rfl rfl
  | removeReplica | removeReplicaFromDevice =>
    simp only [applyCommandTx, returns_updatePlacement, returns_bind, returns_when, returns_modify, returns_pure] at h
    obtain ⟨p, _, _, hp, ⟨_, _, ⟨-, rfl⟩ | ⟨-, rfl⟩, rfl, rfl⟩, rfl, -⟩ := h
    all_goals exact usageStep_revise rfl hp rfl rfl rfl rfl rfl
  | acknowledgeTombstone id node time =>
    simp only [applyCommandTx, returns_bind, returns_read, returns_okOr, returns_modify, returns_pure] at h
    obtain ⟨_, _, ⟨rfl, rfl⟩, t, _, ⟨ht, rfl⟩, _, _, rfl, -, rfl⟩ := h
    exact ⟨_, .acknowledge ht rfl rfl (usage_congr rfl)⟩
  | purgeTombstone id =>
    simp only [applyCommandTx, returns_bind, returns_read, returns_modify, returns_when, returns_pure] at h
    obtain ⟨_, s, ⟨rfl, rfl⟩, _, _, rfl, _, _, ⟨hremoved, rfl⟩ | ⟨hremoved, rfl⟩, -, rfl⟩ := h
    all_goals
      refine ⟨_, .purge rfl rfl fun m => ?_⟩
      rw [show s.tombstone id = s.tombstones[id.bytes]? from rfl]
    · show (adjustCounter "tombstones" (-1) s).readCounter m.name = _
      have hsome := Option.isSome_iff_ne_none.mp hremoved
      cases m <;> simp [Meter.name, askedByPurge, readCounter_adjustCounter, hsome, clamped_zero]
    · have hnone := Option.not_isSome_iff_eq_none.mp hremoved
      show s.readCounter m.name = _
      cases m <;> simp [askedByPurge, hnone, clamped_zero]
  | _ =>
    have htables := replicas_of_returns h rfl
    exact ⟨_, .idle (congrArg Prod.fst htables) (congrArg (fun r => r.2.2) htables) (keeps_usage rfl h)⟩

theorem usageStep_next (s : ClusterCatalog) (c : ClusterCommand) : ∃ asked, UsageStep s c asked (s.next c) :=
  commit_preserves (P := fun s' => ∃ asked, UsageStep s c asked s') ⟨_, .idle rfl rfl rfl⟩ fun _ _ hr =>
    usageStep_of_returns hr

/-! ## The meters are exact -/

/-- Each placement is under its key, and each meter says its total. -/
structure ClusterCatalog.Metered (s : ClusterCatalog) : Prop where
  keyed : s.Keyed
  exact (m : Meter) : (s.readCounter m.name).toNat = m.total s

theorem metered_empty : ClusterCatalog.empty.Metered := by
  refine ⟨keyed_empty, fun m => ?_⟩
  cases m <;> decide

theorem UsageStep.adjusts {asked : Meter → Int} (h : UsageStep s c asked s') : s.Adjusts asked s' := by
  have hstill : s'.usage = s.usage → s.Adjusts (fun _ => 0) s' := fun h m => by
    rw [clamped_zero]
    exact congrFun h m
  cases h with
  | idle hplacements htombstones hmeters => exact hstill hmeters
  | put hplacements htombstones hmeters => exact hmeters
  | revise hc hp hid hsize hplacements htombstones hmeters => exact hmeters
  | delete hp hplacements htombstones hmeters => exact hmeters
  | acknowledge ht hplacements htombstones hmeters => exact hstill hmeters
  | purge hplacements htombstones hmeters => exact hmeters

/-- A step replaces at most one placement and one tombstone, and asks for the difference of their shares. -/
theorem UsageStep.swaps {asked : Meter → Int} (h : UsageStep s c asked s') (hk : s.Keyed) :
    ∃ p p' t t', Table.Swap s.placements s'.placements p p' ∧ Table.Swap s.tombstones s'.tombstones t t' ∧
      ∀ m : Meter, asked m = m.share p' t' - m.share p t := by
  cases h with
  | idle hplacements htombstones hmeters =>
    refine ⟨none, none, none, none, hplacements ▸ .refl _, htombstones ▸ .refl _, fun m => (sub_self _).symm⟩
  | @put p s' hplacements htombstones hmeters =>
    refine ⟨s.placement p.objectId, some p, none, none, hplacements ▸ Table.swap_insert _ _ _,
      htombstones ▸ .refl _, fun m => ?_⟩
    cases m <;> cases s.placement p.objectId <;> simp [Meter.share, askedByPut]
  | @revise c id p p' s' hc hp hid hsize hplacements htombstones hmeters =>
    have hkey : s.placements[p'.objectId.bytes]? = some p := by
      rw [hid, hk.objectId hp]
      exact hp
    refine ⟨some p, some p', none, none, ?_, htombstones ▸ .refl _, fun m => ?_⟩
    · rw [← hkey, hplacements]
      exact Table.swap_insert _ _ _
    · cases m <;> simp [Meter.share, askedByRevision, hsize]
  | @delete id time p t s' hp hplacements htombstones hmeters =>
    refine ⟨some p, none, s.tombstone id, some t, ?_, htombstones ▸ Table.swap_insert _ _ _, fun m => ?_⟩
    · rw [← hp, hplacements]
      exact Table.swap_erase _ _
    · cases m <;> cases s.tombstone id <;> simp [Meter.share, askedByDeletion]
  | @acknowledge id node time t t' s' ht hplacements htombstones hmeters =>
    refine ⟨none, none, some t, some t', hplacements ▸ .refl _, ?_, fun m => ?_⟩
    · rw [← ht, htombstones]
      exact Table.swap_insert _ _ _
    · cases m <;> simp [Meter.share]
  | @purge id s' hplacements htombstones hmeters =>
    refine ⟨none, none, s.tombstone id, none, hplacements ▸ .refl _, htombstones ▸ Table.swap_erase _ _, fun m => ?_⟩
    cases m <;> cases s.tombstone id <;> simp [Meter.share, askedByPurge]

/-- A meter that said its total says it again, and was not clamped, if the new total fits. -/
theorem UsageStep.exact {asked : Meter → Int} (h : UsageStep s c asked s') (hs : s.Metered) (m : Meter)
    (hfits : m.total s' < 2 ^ 64) :
    (s'.readCounter m.name).toNat = m.total s' ∧ Unclamped (s.readCounter m.name) (asked m) := by
  obtain ⟨p, p', t, t', hp, ht, hasked⟩ := h.swaps hs.keyed
  have htotal := total_swap hp ht m
  have hbefore := hs.exact m
  have hdelta := hasked m
  have hunclamped : Unclamped (s.readCounter m.name) (asked m) := by
    unfold Unclamped
    omega
  have hafter := clamped_toNat hunclamped
  rw [← h.adjusts m] at hafter
  exact ⟨by omega, hunclamped⟩

/-- The totals can be held by the counters. -/
def ClusterCatalog.Countable (s : ClusterCatalog) : Prop := ∀ m : Meter, m.total s < 2 ^ 64

instance (s : ClusterCatalog) : Decidable s.Countable :=
  decidable_of_iff (∀ m ∈ [Meter.placements, .tombstones, .logicalBytes, .physicalBytes], m.total s < 2 ^ 64)
    ⟨fun h m => h m (by cases m <;> simp), fun h m _ => h m⟩

/-- In every run of commands in which the totals fit, each meter says its total in every state, and no adjustment is
clamped. -/
theorem usage_exact (commands : List ClusterCommand) (hs : s.Metered)
    (hfits : Lib.Meets (fun s c => some (ClusterCatalog.next s c))
      (fun s c => (ClusterCatalog.next s c).Countable) s commands) :
    Lib.Meets (fun s c => some (ClusterCatalog.next s c))
      (fun s c => (ClusterCatalog.next s c).Metered ∧ ∀ asked, UsageStep s c asked (ClusterCatalog.next s c) →
        ∀ m : Meter, Unclamped (s.readCounter m.name) (asked m)) s commands := by
  have hexact : ∀ s c, s.Metered → (ClusterCatalog.next s c).Countable → (ClusterCatalog.next s c).Metered := by
    intro s c hs hfits
    obtain ⟨asked, hstep⟩ := usageStep_next s c
    exact ⟨hs.keyed.next, fun m => (hstep.exact hs m (hfits m)).1⟩
  refine hfits.imp_of (fun s c hs hfits => ?_)
    (fun s c s' hs hfits hnext => Option.some.inj hnext ▸ hexact s c hs hfits) hs
  exact ⟨hexact s c hs hfits, fun asked hstep m => (hstep.exact hs m (hfits m)).2⟩

namespace Sample

/-- The payload is placed on two devices and then on one, deleted and placed again, and its tombstone is purged. -/
def replaced : List ClusterCommand :=
  [.putPlacement (placement [slot 1 1, slot 2 2]), .putPlacement (placement [slot 1 1]),
    .removeReplica object (.ofNat 1) .epoch,
    .deletePlacement object .epoch, .putPlacement (placement [slot 2 2]), .purgeTombstone object]

end Sample

theorem usage_exact_replaced : ClusterCatalog.empty.Metered ∧
    Lib.Meets (fun s c => some (ClusterCatalog.next s c))
      (fun s c => (ClusterCatalog.next s c).Metered ∧ ∀ asked, UsageStep s c asked (ClusterCatalog.next s c) →
        ∀ m : Meter, Unclamped (s.readCounter m.name) (asked m)) .empty Sample.replaced :=
  ⟨metered_empty, usage_exact Sample.replaced metered_empty (by decide +kernel)⟩

end RecordStore.Cluster

import RecordStore.Cluster.History

/-!
# Cluster.Tombstones — deleted payloads stay deleted

A tombstone stops a node from bringing a deleted payload back, and it says which nodes still have bytes to
remove.  `PutPlacement` does not look for a tombstone and `PurgeTombstone` does not look at the pending
nodes, so both can undo that.  They do not as long as no payload is placed again after its deletion and a
tombstone is purged only after it has been complete.
-/

namespace RecordStore.Cluster

open RecordStore.Lib RecordStore.Core

namespace Chronicle

variable {x x' : Chronicle} {c : ClusterCommand} {s' : ClusterCatalog} {id i : ObjectId} {node : NodeId}

/-- A placement is written only for a payload that was never deleted, and a tombstone is purged only if it
was complete at some time before: that is what the coordinator reads before it purges. -/
def Fresh (x : Chronicle) (c : ClusterCommand) : Prop :=
  (∀ p ∈ c.puts.toList, x.heldFor p.objectId = none) ∧
    ∀ id ∈ c.purges.toList, x.catalog.tombstone id = none ∨ id ∈ x.finished

instance (x : Chronicle) (c : ClusterCommand) : Decidable (x.Fresh c) := inferInstanceAs (Decidable (_ ∧ _))

/-- No deleted payload is back, and nobody is forgotten who has bytes to remove. -/
structure Deleted (x : Chronicle) : Prop where
  apart : ∀ id, x.catalog.placement id = none ∨ x.catalog.tombstone id = none
  gone : ∀ id, (x.heldFor id).isSome → (x.catalog.tombstone id).isSome → x.catalog.placement id = none
  pending : ∀ id, ∀ node ∈ x.owedFor id, ∃ t, x.catalog.tombstone id = some t ∧ node ∈ t.pendingNodes
  purged : x.purgedEarly = []

/-- The invariant.  A payload with a placement was never deleted, one with a tombstone was, and a
tombstone that was complete stays so. -/
structure Buried (x : Chronicle) : Prop where
  keyed : x.catalog.Keyed
  placed : ∀ id p, x.catalog.placement id = some p → x.heldFor id = none
  marked : ∀ id t, x.catalog.tombstone id = some t → x.heldFor id ≠ none
  pending : ∀ id, ∀ node ∈ x.owedFor id, ∃ t, x.catalog.tombstone id = some t ∧ node ∈ t.pendingNodes
  finished : ∀ id ∈ x.finished, x.heldFor id ≠ none ∧ ∀ t, x.catalog.tombstone id = some t → t.pendingNodes = []
  purged : x.purgedEarly = []

namespace Buried

theorem empty : Buried .empty where
  keyed := ClusterCatalog.keyed_empty
  placed id p h := by
    rw [show Chronicle.empty.catalog.placement id = none from Table.lookup_empty _] at h
    cases h
  marked id t h := by
    rw [show Chronicle.empty.catalog.tombstone id = none from Table.lookup_empty _] at h
    cases h
  pending id node h := by
    rw [show Chronicle.empty.owedFor id = [] from congrArg (Option.getD · []) (Table.lookup_empty _)] at h
    cases h
  finished _ h := nomatch h
  purged := rfl

/-- What is read off the invariant. -/
theorem deleted (h : Buried x) : Deleted x where
  apart id := by
    rcases hp : x.catalog.placement id with _ | p
    · exact .inl rfl
    · rcases ht : x.catalog.tombstone id with _ | t
      · exact .inr rfl
      · exact absurd (h.placed id p hp) (h.marked id t ht)
  gone id hheld _ := by
    rcases hp : x.catalog.placement id with _ | p
    · rfl
    · rw [h.placed id p hp] at hheld
      cases hheld
  pending := h.pending
  purged := h.purged

/-- A payload with a placement has no tombstone. -/
theorem tombstone_eq_none (h : Buried x) {p : PayloadPlacement} (hp : x.catalog.placement id = some p) :
    x.catalog.tombstone id = none :=
  (h.deleted.apart id).resolve_left fun hnone => absurd (hnone.symm.trans hp) nofun

/-! ### One lemma for each effect -/

/-- What the history says of complete tombstones, from what it said before the command. -/
theorem finished_record (hmarked : ∀ id t, s'.tombstone id = some t → (x.record c s').heldFor id ≠ none)
    (hbefore : ∀ id ∈ x.finished, (x.record c s').heldFor id ≠ none ∧ ∀ t, s'.tombstone id = some t →
      t.pendingNodes = [])
    (hi : i ∈ (x.record c s').finished) :
    (x.record c s').heldFor i ≠ none ∧ ∀ t, s'.tombstone i = some t → t.pendingNodes = [] := by
  rcases of_mem_finished hi with hi | hcomplete
  · exact hbefore i hi
  · obtain ⟨t, ht, hpending⟩ := complete_iff.mp hcomplete
    refine ⟨hmarked i t ht, fun t' ht' => ?_⟩
    obtain rfl : t = t' := Option.some.inj (ht.symm.trans ht')
    exact hpending

/-- A command that leaves the tombstones and what is owed alone, and writes no placement for a payload
that was deleted. -/
theorem quiet (h : Buried x) (hheld : (x.record c s').held = x.held) (howed : (x.record c s').owed = x.owed)
    (hpurged : (x.record c s').purgedEarly = x.purgedEarly) (hkeyed : s'.Keyed)
    (hplaced : ∀ i p, s'.placement i = some p → x.heldFor i = none)
    (htombstones : s'.tombstones = x.catalog.tombstones) :
    Buried (x.record c s') := by
  have ht : ∀ i, s'.tombstone i = x.catalog.tombstone i := fun i => ClusterCatalog.tombstone_congr htombstones
  have hheldFor : ∀ i, (x.record c s').heldFor i = x.heldFor i := fun i => congrArg (fun t => t[i.bytes]?) hheld
  have howedFor : ∀ i, (x.record c s').owedFor i = x.owedFor i := fun i =>
    congrArg (fun t => (t[i.bytes]?).getD []) howed
  have hmarked : ∀ i t, s'.tombstone i = some t → (x.record c s').heldFor i ≠ none := by
    intro i t hit
    rw [hheldFor]
    exact h.marked i t ((ht i).symm.trans hit)
  refine ⟨hkeyed, fun i p hip => (hheldFor i).trans (hplaced i p hip), hmarked, ?_, ?_, hpurged.trans h.purged⟩
  · intro i n hn
    rw [howedFor] at hn
    obtain ⟨t, hit, hmem⟩ := h.pending i n hn
    exact ⟨t, (ht i).trans hit, hmem⟩
  · intro i hi
    refine finished_record hmarked (fun j hj => ?_) hi
    rw [hheldFor, ht]
    exact h.finished j hj

theorem write (h : Buried x) {p : PayloadPlacement} (hsettles : settles c = false) (hnew : x.heldFor p.objectId = none)
    (hw : Writes x.catalog p s') : Buried (x.record c s') := by
  obtain ⟨hheld, howed, hpurged⟩ := record_of_not_settles x s' hsettles
  refine h.quiet hheld howed hpurged (h.keyed.insert hw.placements) (fun i q hiq => ?_) hw.tombstones
  rw [ClusterCatalog.placement_insert hw.placements] at hiq
  split_ifs at hiq with hi
  · rw [hi]
    exact hnew
  · exact h.placed i q hiq

theorem delete (h : Buried x) {p : PayloadPlacement} {time : DateTime} (hd : Deletes x.catalog id p time s') :
    Buried (x.record (.deletePlacement id time) s') := by
  have hheldFor : ∀ i, (x.record (.deletePlacement id time) s').heldFor i = if i = id then some p.slots
    else x.heldFor i :=
    fun i => heldFor_delete hd.found
  have hmarked : ∀ i t, s'.tombstone i = some t → (x.record (.deletePlacement id time) s').heldFor i ≠ none := by
    intro i t hit
    rw [ClusterCatalog.tombstone_insert hd.tombstones] at hit
    rw [hheldFor]
    split_ifs at hit ⊢
    · exact nofun
    · exact h.marked i t hit
  constructor
  · exact h.keyed.step (.delete hd)
  · intro i q hiq
    rw [show (x.record (.deletePlacement id time) s').catalog.placement i = _ from
      ClusterCatalog.placement_erase hd.placements] at hiq
    rw [hheldFor]
    split_ifs at hiq ⊢
    exact h.placed i q hiq
  · exact hmarked
  · intro i n hn
    rw [owedFor_delete hd.found] at hn
    rw [show (x.record (.deletePlacement id time) s').catalog.tombstone i = _ from
      ClusterCatalog.tombstone_insert hd.tombstones]
    split_ifs at hn ⊢
    · exact ⟨_, rfl, hn⟩
    · exact h.pending i n hn
  · -- the payload was not deleted before, so its tombstone was never complete
    intro i hi
    refine finished_record hmarked (fun j hj => ?_) hi
    have hne : j ≠ id := fun e => (h.finished j hj).1 (e ▸ h.placed id p hd.found)
    rw [hheldFor, if_neg hne, ClusterCatalog.tombstone_insert hd.tombstones, if_neg hne]
    exact h.finished j hj
  · exact h.purged

theorem acknowledge (h : Buried x) {t : Tombstone} {time : DateTime} (ha : Acknowledges x.catalog id node t time s') :
    Buried (x.record (.acknowledgeTombstone id node time) s') := by
  have ht : ∀ i, s'.tombstone i = if i = id then some (t.acknowledge node time) else x.catalog.tombstone i :=
    fun i => ClusterCatalog.tombstone_insert ha.tombstones
  have hpendings : (t.acknowledge node time).pendingNodes = t.pendingNodes.filter (· ≠ node) := rfl
  have hmarked : ∀ i t', s'.tombstone i = some t' → x.heldFor i ≠ none := by
    intro i t' hit
    rw [ht] at hit
    split_ifs at hit with hi
    · rw [hi]
      exact h.marked id t ha.found
    · exact h.marked i t' hit
  constructor
  · exact h.keyed.of_placements ha.placements
  · intro i p hip
    exact h.placed i p ((ClusterCatalog.placement_congr ha.placements).symm.trans hip)
  · exact hmarked
  · intro i n hn
    rw [owedFor_acknowledge] at hn
    rw [show (x.record (.acknowledgeTombstone id node time) s').catalog.tombstone i = _ from ht i]
    split_ifs at hn ⊢
    · -- whoever still owes one is not the node that gave one
      obtain ⟨hn, hne⟩ := List.mem_filter.mp hn
      obtain ⟨t', ht', hmem⟩ := h.pending id n hn
      obtain rfl : t = t' := Option.some.inj (ha.found.symm.trans ht')
      exact ⟨_, rfl, List.mem_filter.mpr ⟨hmem, hne⟩⟩
    · exact h.pending i n hn
  · intro i hi
    refine finished_record hmarked (fun j hj => ⟨(h.finished j hj).1, fun t' hjt => ?_⟩) hi
    rw [ht] at hjt
    split_ifs at hjt with hj'
    · rw [← Option.some.inj hjt, hpendings, (h.finished j hj).2 t (hj' ▸ ha.found), List.filter_nil]
    · exact (h.finished j hj).2 t' hjt
  · exact h.purged

theorem purge (h : Buried x) (hfresh : x.catalog.tombstone id = none ∨ id ∈ x.finished)
    (hs : s'.footing = { x.catalog with tombstones := x.catalog.tombstones.erase id.bytes }.footing) :
    Buried (x.record (.purgeTombstone id) s') := by
  have ht : ∀ i, s'.tombstone i = if i = id then none else x.catalog.tombstone i :=
    fun i => ClusterCatalog.tombstone_erase (congrArg (fun f => f.1.2.2) hs)
  have hp : ∀ i, s'.placement i = x.catalog.placement i :=
    fun i => ClusterCatalog.placement_congr (congrArg (fun f => f.1.1) hs)
  -- a tombstone that was complete at some time still is
  have hempty : ∀ t, x.catalog.tombstone id = some t → t.pendingNodes = [] := by
    intro t hit
    rcases hfresh with hnone | hfinished
    · rw [hnone] at hit
      cases hit
    · exact (h.finished id hfinished).2 t hit
  have hmarked : ∀ i t, s'.tombstone i = some t → x.heldFor i ≠ none := by
    intro i t hit
    rw [ht] at hit
    split_ifs at hit
    exact h.marked i t hit
  constructor
  · exact h.keyed.of_placements (congrArg (fun f => f.1.1) hs)
  · exact fun i p hip => h.placed i p ((hp i).symm.trans hip)
  · exact hmarked
  · intro i n hn
    obtain ⟨t, hit, hmem⟩ := h.pending i n hn
    have hne : i ≠ id := by
      rintro rfl
      rw [hempty t hit] at hmem
      cases hmem
    exact ⟨t, (ht i).trans ((if_neg hne).trans hit), hmem⟩
  · intro i hi
    refine finished_record hmarked (fun j hj => ⟨(h.finished j hj).1, fun t hjt => ?_⟩) hi
    rw [ht] at hjt
    split_ifs at hjt
    exact (h.finished j hj).2 t hjt
  · refine Eq.trans (if_neg ?_) h.purged
    rintro ⟨hsome, hincomplete⟩
    obtain ⟨t, hit⟩ := Option.isSome_iff_exists.mp hsome
    exact hincomplete (complete_iff.mpr ⟨t, hit, hempty t hit⟩)

theorem step (h : Buried x) (hfresh : x.Fresh c) (hstep : x.step c = some x') : Buried x' := by
  rcases step_cases hstep with rfl | ⟨o, s', hr, rfl⟩
  · exact h
  have heffect := replicaEffect_of_returns h.keyed hr
  have hkeyed := h.keyed.step heffect
  cases heffect with
  | other hc hs =>
    obtain ⟨hheld, howed, hpurged⟩ := record_of_not_settles x s' (settles_of_payload hc)
    refine h.quiet hheld howed hpurged hkeyed (fun i p hip => ?_) (congrArg (fun r => r.2.2) hs)
    exact h.placed i p ((ClusterCatalog.placement_congr (congrArg Prod.fst hs)).symm.trans hip)
  | @put p _ hw => exact h.write rfl (hfresh.1 p List.mem_cons_self) hw
  | revise hc hw =>
    refine h.write (settles_of_revised hc) ?_ hw.toWrites
    rw [hw.objectId]
    exact h.placed _ _ hw.found
  | absent hnone =>
    obtain ⟨hheld, howed⟩ := record_of_absent x.catalog hnone
    exact h.quiet hheld howed rfl hkeyed h.placed rfl
  | delete hd => exact h.delete hd
  | acknowledge ha => exact h.acknowledge ha
  | @purge id _ hs => exact h.purge (hfresh.2 id List.mem_cons_self) hs

end Buried

end Chronicle

namespace Sample

/-- Written, deleted, acknowledged by both holders, purged. -/
def life : List ClusterCommand :=
  [.putPlacement (placement [slot 1 1, slot 2 2]), .deletePlacement object .epoch,
    .acknowledgeTombstone object (.ofNat 1) .epoch, .acknowledgeTombstone object (.ofNat 2) .epoch,
    .purgeTombstone object]

/-- A second completion of one multipart upload places the payload that was deleted meanwhile. -/
def resurrection : List ClusterCommand :=
  [.putPlacement (placement [slot 1 1, slot 2 2]), .deletePlacement object .epoch,
    .putPlacement (placement [slot 1 1, slot 3 3])]

def earlyPurge : List ClusterCommand :=
  [.putPlacement (placement [slot 1 1, slot 2 2]), .deletePlacement object .epoch, .purgeTombstone object]

end Sample

/-- In every run in which no payload is placed again after its deletion and no tombstone is purged before
it was complete, deleted payloads stay deleted and every holder is pending until it acknowledges. -/
theorem deleted_payloads_stay_deleted (commands : List ClusterCommand) (x : Chronicle)
    (hfresh : Meets Chronicle.step Chronicle.Fresh .empty commands)
    (hrun : run Chronicle.step .empty commands = some x) :
    x.Deleted :=
  (run_invariant (fun _ _ _ h hf hs => h.step hf hs) commands Chronicle.Buried.empty hfresh hrun).deleted


theorem deleted_payloads_stay_deleted_life :
    ∃ x, run Chronicle.step .empty Sample.life = some x ∧ x.Deleted ∧ x.owedFor Sample.object = [] := by
  have hrun : (run Chronicle.step .empty Sample.life).isSome := by decide +kernel
  obtain ⟨x, hx⟩ := Option.isSome_iff_exists.mp hrun
  have howed : (run Chronicle.step .empty Sample.life).all fun x => x.owedFor Sample.object = [] := by decide +kernel
  rw [hx] at howed
  exact ⟨x, hx, deleted_payloads_stay_deleted Sample.life x (by decide +kernel) hx, by simpa using howed⟩

/-- A placement written late brings a deleted payload back, and a tombstone purged early forgets a node
that still has its bytes. -/
theorem late_placement_and_early_purge :
    (∃ x, run Chronicle.step .empty Sample.resurrection = some x ∧ ¬ x.Deleted) ∧
      ∃ x, run Chronicle.step .empty Sample.earlyPurge = some x ∧ ¬ x.Deleted := by
  constructor
  · obtain ⟨x, hx, hplaced, hburied⟩ : ∃ x, run Chronicle.step .empty Sample.resurrection = some x ∧
        x.catalog.placement Sample.object ≠ none ∧ x.catalog.tombstone Sample.object ≠ none := by decide +kernel
    exact ⟨x, hx, fun h => (h.apart Sample.object).elim hplaced hburied⟩
  · obtain ⟨x, hx, hearly⟩ : ∃ x, run Chronicle.step .empty Sample.earlyPurge = some x ∧ x.purgedEarly ≠ [] := by
      decide +kernel
    exact ⟨x, hx, fun h => hearly h.purged⟩

end RecordStore.Cluster

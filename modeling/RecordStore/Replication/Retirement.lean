import RecordStore.Cluster.History
import RecordStore.Metadata.Payloads

/-!
# Replication.Retirement — payloads in the cleanup queue

`cleanup_pending` proposes two commands for each payload of the queue: one deletes its placement, the other takes
it out of the queue.  A failure of the first is only logged.
-/

namespace RecordStore.Replication

open RecordStore.Lib RecordStore.Core RecordStore.Cluster Tx

/-! ## Proposals -/

/-- What becomes of a proposal. -/
inductive Fate where
  | committed
  | rejected
  | unavailable
  -- applied, but the answer never arrived
  | lost
  deriving DecidableEq

/-- The state machine applies the command. -/
def Fate.Applied (fate : Fate) : Prop := fate = .committed ∨ fate = .lost

instance : DecidablePred Fate.Applied := fun _ => inferInstanceAs (Decidable (_ ∨ _))

/-- Whether the caller sees `Ok`, and the state after the proposal. -/
def Fate.propose {σ ε α : Type} (fate : Fate) (x : Tx σ ε α) (s : σ) : Bool × σ :=
  if fate.Applied then (fate = .committed ∧ (commit x s).1.isOk, (commit x s).2) else (false, s)

/-- The two replicated catalogs. -/
structure Planes where
  metadata : Metadata.Catalog
  cluster : ClusterCatalog

/-- What becomes of the two proposals for a payload. -/
structure Fates where
  retire : Fate
  complete : Fate
  time : DateTime

/-! ## The pass -/

section Pass

variable (env : Metadata.Env) (fates : ObjectId → Fates)

/-- An identifier in a key of `CLEANUP`. -/
def cleanupId (key : Bytes) : Option ObjectId := if h : key.length = 16 then some ⟨⟨key, h⟩⟩ else none

/-- `pending_cleanup`, on the tables of this member. -/
def pendingCleanup (t : Metadata.Catalog) (limit : Nat) : Option (List ObjectId) :=
  ((t.cleanup.toList.take limit).map Prod.fst).mapM cleanupId

/-- `retire_payload`: an error is logged and dropped. -/
def retirePayload (id : ObjectId) (s : Planes) : Planes :=
  { s with
    cluster := ((fates id).retire.propose (Cluster.applyCommandTx (.deletePlacement id (fates id).time)) s.cluster).2 }

/-- `complete_cleanup`. -/
def completeCleanup (id : ObjectId) (s : Planes) : Bool × Planes :=
  let answer := (fates id).complete.propose (Metadata.applyCommandTx env (.completeCleanup id)) s.metadata
  (answer.1, { s with metadata := answer.2 })

/-- The loop: the proposals of `CompleteCleanup` with the state they are made in, the state at the end and the number
of payloads completed. -/
def cleanup : List ObjectId → Planes → List (ObjectId × Planes) × Planes × Nat
  | [], s => ([], s, 0)
  | id :: ids, s =>
    let s₁ := retirePayload fates id s
    let answer := completeCleanup env fates id s₁
    let rest := cleanup ids answer.2
    ((id, s₁) :: rest.1, rest.2.1, if answer.1 then rest.2.2 + 1 else rest.2.2)

/-- `cleanup_pending`, for a member with the metadata tables `t`. -/
def cleanupPending (t : Metadata.Catalog) (limit : Nat) (s : Planes) : Option
    (List (ObjectId × Planes) × Planes × Nat) :=
  (pendingCleanup t limit).map fun pending => cleanup env fates pending s

end Pass

/-! ## What the proposals do -/

section Effects

variable {env : Metadata.Env} {fates : ObjectId → Fates} {id i : ObjectId} {s : Planes} {ids : List ObjectId}

theorem placement_deletePlacement {s : ClusterCatalog} {time : DateTime} :
    (s.next (.deletePlacement id time)).placement i = if i = id then none else s.placement i := by
  unfold ClusterCatalog.next
  rcases returns_or_fails (Cluster.applyCommandTx (.deletePlacement id time)) s with ⟨o, s', hr⟩ | ⟨e, hf⟩
  · rw [commit_of_returns hr]
    cases deletes_of_returns hr with
    | other hc _ => exact absurd hc (by simp [ClusterCommand.payload])
    | revise hc _ => exact absurd hc (by simp [ClusterCommand.revised])
    | absent h =>
      split_ifs with hi
      · rw [hi, h]
      · rfl
    | delete h => exact ClusterCatalog.placement_erase h.placements
  · refine absurd hf ?_
    simp only [Cluster.applyCommandTx, deletePlacement, fails_bind, fails_read, returns_read, false_or,
      not_exists, not_and]
    rintro found s' ⟨-, -⟩
    cases found with
    | none => exact fails_pure
    | some p => simp [fails_bind, fails_read, fails_modify, fails_when, fails_map]

theorem placement_retirePayload : (retirePayload fates id s).cluster.placement i =
    if i = id ∧ (fates id).retire.Applied then none else s.cluster.placement i := by
  unfold retirePayload Fate.propose
  split_ifs with happlied hi hi
  · exact placement_deletePlacement.trans (if_pos hi.1)
  · exact placement_deletePlacement.trans (if_neg fun h => hi ⟨h, happlied⟩)
  · exact absurd hi.2 happlied
  · rfl

/-- Completing a payload takes it out of the queue and leaves the references. -/
theorem metadata_completeCleanup : (completeCleanup env fates id s).2.metadata =
    if (fates id).complete.Applied then { s.metadata with cleanup := s.metadata.cleanup.erase id.bytes }
    else s.metadata := by
  have hreturns : Returns (Metadata.applyCommandTx env (.completeCleanup id)) s.metadata .none
      { s.metadata with cleanup := s.metadata.cleanup.erase id.bytes } := by
    simp only [Metadata.applyCommandTx, Metadata.completeCleanupTx, returns_bind, returns_modify, returns_pure]
    exact ⟨(), _, rfl, trivial, rfl⟩
  unfold completeCleanup Fate.propose
  split_ifs
  · rw [commit_of_returns hreturns]
  · rfl

theorem queued_completeCleanup : (completeCleanup env fates id s).2.metadata.queued i =
    if i = id ∧ (fates id).complete.Applied then false else s.metadata.queued i := by
  rw [metadata_completeCleanup]
  unfold Metadata.Catalog.queued
  split_ifs with happlied hi hi
  · rw [Table.lookup_erase, if_pos (by rw [hi.1])]
    rfl
  · rw [Table.lookup_erase, if_neg fun h => hi ⟨Id.bytes_inj.mp h, happlied⟩]
  · exact absurd hi.2 happlied
  · rfl

theorem payloadReferenced_completeCleanup : (completeCleanup env fates id s).2.metadata.payloadReferenced i =
    s.metadata.payloadReferenced i := by
  rw [metadata_completeCleanup]
  split_ifs <;> rfl

/-- What the loop does to a payload. -/
theorem cleanup_effect (env : Metadata.Env) (fates : ObjectId → Fates) (ids : List ObjectId) : ∀ s : Planes, ∀ i,
    (cleanup env fates ids s).2.1.cluster.placement i =
      (if i ∈ ids ∧ (fates i).retire.Applied then none else s.cluster.placement i) ∧
    (cleanup env fates ids s).2.1.metadata.queued i =
      (if i ∈ ids ∧ (fates i).complete.Applied then false else s.metadata.queued i) ∧
    (cleanup env fates ids s).2.1.metadata.payloadReferenced i = s.metadata.payloadReferenced i := by
  induction ids with
  | nil => exact fun s i => ⟨(if_neg fun h => List.not_mem_nil h.1).symm,
    (if_neg fun h => List.not_mem_nil h.1).symm, rfl⟩
  | cons id ids ih =>
    intro s i
    obtain ⟨hplacement, hqueued, hreferenced⟩ := ih (completeCleanup env fates id (retirePayload fates id s)).2 i
    have hfirst : (completeCleanup env fates id (retirePayload fates id s)).2.cluster.placement i =
        if i = id ∧ (fates id).retire.Applied then none else s.cluster.placement i := placement_retirePayload
    refine ⟨hplacement.trans ?_, hqueued.trans ?_, hreferenced.trans payloadReferenced_completeCleanup⟩
    · rw [hfirst]
      by_cases hi : i = id
      · subst hi
        by_cases happlied : (fates i).retire.Applied <;> simp [happlied]
      · simp [hi]
    · rw [queued_completeCleanup]
      by_cases hi : i = id
      · subst hi
        by_cases happlied : (fates i).complete.Applied
        · simp [happlied]
        · simp [happlied]
          rfl
      · simp [hi]
        rfl

theorem issued_ids (ids : List ObjectId) : ∀ s : Planes, (cleanup env fates ids s).1.map Prod.fst = ids := by
  induction ids with
  | nil => exact fun _ => rfl
  | cons id ids ih => exact fun s => congrArg (id :: ·) (ih _)

/-- The state in which the completion of a payload is proposed. -/
theorem issued_effect (ids : List ObjectId) : ∀ s : Planes, ∀ i s₁, (i, s₁) ∈ (cleanup env fates ids s).1 →
    (s₁.cluster.placement i = none ↔ (fates i).retire.Applied ∨ s.cluster.placement i = none) := by
  induction ids with
  | nil => exact fun s i s₁ h => absurd h List.not_mem_nil
  | cons id ids ih =>
    intro s i s₁ h
    rcases List.mem_cons.mp h with heq | h
    · obtain ⟨rfl, rfl⟩ := Prod.mk.inj heq
      rw [placement_retirePayload]
      by_cases happlied : (fates i).retire.Applied <;> simp [happlied]
    · rw [ih (completeCleanup env fates id (retirePayload fates id s)).2 i s₁ h]
      have hfirst : (completeCleanup env fates id (retirePayload fates id s)).2.cluster.placement i =
          if i = id ∧ (fates id).retire.Applied then none else s.cluster.placement i := placement_retirePayload
      rw [hfirst]
      by_cases hi : i = id
      · subst hi
        by_cases happlied : (fates i).retire.Applied <;> simp [happlied]
      · simp [hi]

end Effects

/-! ## Payloads that are lost sight of -/

/-- A payload with a placement is referred to or in the queue. -/
def Planes.Tracked (s : Planes) : Prop :=
  ∀ id, s.cluster.placement id ≠ none → s.metadata.payloadReferenced id = true ∨ s.metadata.queued id = true

/-- A completion is proposed for a retired payload exactly if the deletion was applied or there was no placement.
The pass loses sight of no payload exactly if this is so of every completion that is applied to a payload nothing
refers to. -/
theorem cleanup_clears_retired_iff (env : Metadata.Env) (fates : ObjectId → Fates) (t : Metadata.Catalog) (limit : Nat)
    (s : Planes) (pending : List ObjectId) (hpending : pendingCleanup t limit = some pending) :
    ∃ issued s' completed, cleanupPending env fates t limit s = some (issued, s', completed) ∧
      issued.map Prod.fst = pending ∧
      (∀ id s₁, (id, s₁) ∈ issued →
        (s₁.cluster.placement id = none ↔ (fates id).retire.Applied ∨ s.cluster.placement id = none)) ∧
      (s.Tracked → (s'.Tracked ↔ ∀ id ∈ pending, (fates id).complete.Applied → s.metadata.payloadReferenced id = false →
        (fates id).retire.Applied ∨ s.cluster.placement id = none)) := by
  refine ⟨_, _, _, by rw [cleanupPending, hpending]; rfl, issued_ids pending s, issued_effect pending s,
    fun htracked => ?_⟩
  have heffect := cleanup_effect env fates pending s
  constructor
  · intro h id hid hcomplete hunreferenced
    by_contra hleft
    rw [not_or] at hleft
    obtain ⟨hplacement, hqueued, hreferenced⟩ := heffect id
    rw [if_neg fun h => hleft.1 h.2] at hplacement
    rw [if_pos ⟨hid, hcomplete⟩] at hqueued
    rcases h id (hplacement ▸ hleft.2) with h | h
    · rw [hreferenced, hunreferenced] at h
      cases h
    · rw [hqueued] at h
      cases h
  · intro h id hid
    obtain ⟨hplacement, hqueued, hreferenced⟩ := heffect id
    rw [hplacement] at hid
    rw [hreferenced, hqueued]
    split_ifs at hid with hretired
    · exact absurd rfl hid
    · rcases htracked id hid with hreferred | hqueue
      · exact .inl hreferred
      · split_ifs with hcompleted
        · left
          by_contra hunreferenced
          rcases h id hcompleted.1 hcompleted.2 (Bool.not_eq_true _ ▸ hunreferenced) with happlied | hnone
          · exact hretired ⟨hcompleted.1, happlied⟩
          · exact hid hnone
        · exact .inr hqueue

namespace Sample

/-- The payload is in the queue, and two devices have it. -/
def obsolete : Planes :=
  ⟨Metadata.Catalog.empty.queueCleanup Cluster.Sample.object,
    .after [.putPlacement (Cluster.Sample.placement [Cluster.Sample.slot 1 1, Cluster.Sample.slot 2 2])]⟩

/-- Whether the deletion of the placement is committed. -/
def fates (retire : Fate) : ObjectId → Fates := fun _ => ⟨retire, .committed, .epoch⟩

def environment : Metadata.Env := ⟨true, fun base _ => base⟩

end Sample

open Sample

theorem tracked_obsolete : obsolete.Tracked := by
  intro id hid
  obtain ⟨p, hp⟩ := Option.ne_none_iff_exists'.mp hid
  have hobject : p.objectId = Cluster.Sample.object := by
    have hrows : ∀ q ∈ obsolete.cluster.placements.rows, q.objectId = Cluster.Sample.object := by decide +kernel
    exact hrows p (Table.mem_rows.mpr ⟨id.bytes, hp⟩)
  obtain rfl := hobject.symm.trans ((ClusterCatalog.keyed_after _).objectId hp)
  exact .inr (by decide +kernel)

theorem cleanup_clears_retired_sample : ∃ issued s' completed,
    cleanupPending environment (fates .committed) obsolete.metadata 10 obsolete = some (issued, s', completed) ∧
      s'.Tracked := by
  obtain ⟨issued, s', completed, hrun, -, -, htracked⟩ := cleanup_clears_retired_iff environment (fates .committed)
    obsolete.metadata 10 obsolete [Cluster.Sample.object] (by decide +kernel)
  exact ⟨issued, s', completed, hrun, (htracked tracked_obsolete).mpr fun _ _ _ _ => .inl (.inl rfl)⟩

/-- The deletion finds no leader and the completion does: the placement stays, with nothing left that would revisit
it. -/
theorem cleanup_clears_unretired : ∃ issued s' completed,
    cleanupPending environment (fates .unavailable) obsolete.metadata 10 obsolete = some (issued, s', completed) ∧
      (∃ s₁, (Cluster.Sample.object, s₁) ∈ issued ∧ s₁.cluster.placement Cluster.Sample.object ≠ none) ∧
      s'.cluster.placement Cluster.Sample.object ≠ none ∧
      s'.metadata.payloadReferenced Cluster.Sample.object = false ∧
        s'.metadata.queued Cluster.Sample.object = false := by
  have hpending : pendingCleanup obsolete.metadata 10 = some [Cluster.Sample.object] := by decide +kernel
  have hplacement : obsolete.cluster.placement Cluster.Sample.object ≠ none := by decide +kernel
  obtain ⟨hleft, hcleared, hunreferenced⟩ :=
    cleanup_effect environment (fates .unavailable) [Cluster.Sample.object] obsolete Cluster.Sample.object
  refine ⟨_, _, _, by rw [cleanupPending, hpending]; rfl, ⟨_, List.mem_cons_self, hplacement⟩, ?_, ?_, ?_⟩
  · exact fun hnone => hplacement (hleft.symm.trans hnone)
  · exact hunreferenced.trans (by decide +kernel)
  · exact hcleared

end RecordStore.Replication

import RecordStore.Cluster.Commands

/-!
# Cluster.Effects — what the cluster commands do

A command on a task or a placement reads its row first.  Two commands move replicas: one adds a record on a device, one
removes every record on a node.
-/

namespace RecordStore.Cluster

open RecordStore.Lib RecordStore.Core Tx

variable {s s' : ClusterCatalog} {o : ClusterOutcome}

/-! ## Tasks -/

/-- The task a command may write. -/
def ClusterCommand.taskId : ClusterCommand → Option ReplicaTaskId
  | enqueueTask task => some task.id
  | claimTask id _ _ _ | completeTask id _ _ _ | failTask id _ _ _ _ _ | requeueTask id _ _ | cancelTask id _ _
  | purgeTask id => some id
  | _ => none

theorem returns_requireTask {id : ReplicaTaskId} {t : ReplicaTask} :
    Returns (requireTask id) s t s' ↔ s.task id = some t ∧ s' = s := by
  simp only [requireTask, returns_bind, returns_read, returns_okOr]
  constructor
  · rintro ⟨_, s₁, ⟨rfl, rfl⟩, h, rfl⟩
    exact ⟨h, rfl⟩
  · rintro ⟨h, rfl⟩
    exact ⟨_, s', ⟨rfl, rfl⟩, h, rfl⟩

/-! ## Replicas -/

theorem returns_requirePlacement {id : ObjectId} {p : PayloadPlacement} :
    Returns (requirePlacement id) s p s' ↔ s.placement id = some p ∧ s' = s := by
  simp only [requirePlacement, returns_bind, returns_read, returns_okOr]
  constructor
  · rintro ⟨_, s₁, ⟨rfl, rfl⟩, h, rfl⟩
    exact ⟨h, rfl⟩
  · rintro ⟨h, rfl⟩
    exact ⟨_, s', ⟨rfl, rfl⟩, h, rfl⟩

theorem returns_updatePlacement {id : ObjectId} {update : PayloadPlacement → ClusterTx PayloadPlacement} :
    Returns (updatePlacement id update) s o s' ↔ ∃ p p' s₁, s.placement id = some p ∧ Returns (update p) s p' s₁ ∧
      s' = s₁.writePlacement p' (physicalBytes p) ∧ o = .placement p' := by
  simp only [updatePlacement, returns_bind, returns_requirePlacement, returns_modify, returns_pure]
  constructor
  · rintro ⟨p, _, ⟨hp, rfl⟩, p', s₁, hu, _, _, rfl, rfl, rfl⟩
    exact ⟨p, p', s₁, hp, hu, rfl, rfl⟩
  · rintro ⟨p, p', s₁, hp, hu, rfl, rfl⟩
    exact ⟨p, s, ⟨hp, rfl⟩, p', s₁, hu, (), _, rfl, rfl, rfl⟩

end RecordStore.Cluster

import RecordStore.Cluster.Effects

/-!
# Cluster.TaskSteps — what a task command does to the task tables

A task command ignores its task, adds a row, rewrites one or removes one.  `TaskStep` says for each of them what
becomes of the rows, the queue and the index by payload, and what is asked of the two counters; the invariants of the
task tables are proved from it.
-/

namespace RecordStore.Cluster

open RecordStore.Lib RecordStore.Core Tx

/-! ## Counters -/

/-- A counter after `adjust_counter`. -/
def clamped (n : UInt64) (delta : Int) : UInt64 := UInt64.ofNat (min (max (n.toNat + delta) 0).toNat (2 ^ 64 - 1))

/-- The new value lies between `0` and `u64::MAX`, so that no clamping takes effect. -/
def Unclamped (n : UInt64) (delta : Int) : Prop := 0 ≤ n.toNat + delta ∧ n.toNat + delta < 2 ^ 64

theorem clamped_zero (n : UInt64) : clamped n 0 = n := by
  have hn := n.toNat_lt
  refine UInt64.toNat.inj ?_
  rw [clamped, UInt64.toNat_ofNat_of_lt' (by unfold UInt64.size; omega)]
  omega

theorem unclamped_zero (n : UInt64) : Unclamped n 0 := by
  have hn := n.toNat_lt
  unfold Unclamped
  omega

theorem clamped_toNat {n : UInt64} {delta : Int} (h : Unclamped n delta) :
    ((clamped n delta).toNat : Int) = n.toNat + delta := by
  obtain ⟨hlow, hhigh⟩ := h
  rw [clamped, UInt64.toNat_ofNat_of_lt' (by unfold UInt64.size; omega)]
  omega

namespace ClusterCatalog

theorem readCounter_adjustCounter (s : ClusterCatalog) (name other : String) (delta : Int) :
    (s.adjustCounter name delta).readCounter other =
      if other = name then clamped (s.readCounter name) delta else s.readCounter other := by
  unfold readCounter adjustCounter
  rw [Table.lookup_insert]
  split_ifs <;> rfl

theorem readCounter_setCounter (s : ClusterCatalog) (name other : String) (value : UInt64) :
    (s.setCounter name value).readCounter other = if other = name then value else s.readCounter other := by
  unfold readCounter setCounter
  rw [Table.lookup_insert]
  split_ifs <;> rfl

/-- What is asked of the counters of active and of parked tasks. -/
def Asks (s s' : ClusterCatalog) (active parked : Int) : Prop :=
  s'.readCounter "active_tasks" = clamped (s.readCounter "active_tasks") active ∧
    s'.readCounter "parked_tasks" = clamped (s.readCounter "parked_tasks") parked

theorem asks_of_counters {s s' : ClusterCatalog} (h : s'.counters = s.counters) : Asks s s' 0 0 := by
  unfold Asks readCounter
  rw [h, clamped_zero, clamped_zero]
  exact ⟨rfl, rfl⟩

theorem Asks.active {s s₁ : ClusterCatalog} (h : Asks s s₁ 0 0) (delta : Int) :
    Asks s (s₁.adjustCounter "active_tasks" delta) delta 0 := by
  unfold Asks at h ⊢
  rw [clamped_zero, clamped_zero] at h
  rw [readCounter_adjustCounter, readCounter_adjustCounter, if_pos rfl, if_neg (by decide), h.1, h.2, clamped_zero]
  exact ⟨rfl, rfl⟩

theorem Asks.parked {s s₁ : ClusterCatalog} {active : Int} (h : Asks s s₁ active 0) (delta : Int) :
    Asks s (s₁.adjustCounter "parked_tasks" delta) active delta := by
  unfold Asks at h ⊢
  rw [clamped_zero] at h
  rw [readCounter_adjustCounter, readCounter_adjustCounter, if_neg (by decide), if_pos rfl, h.2]
  exact ⟨h.1, rfl⟩

/-! ## Queue and index -/

theorem insertTaskQueueEntry_eq (s : ClusterCatalog) (t : ReplicaTask) :
    s.insertTaskQueueEntry t = { s with
      taskQueue := if t.state.active then s.taskQueue.insert (taskQueueKey t) t.id.bytes else s.taskQueue } := by
  unfold insertTaskQueueEntry
  split_ifs <;> rfl

theorem removeTaskObjectEntry_eq (s : ClusterCatalog) (t : ReplicaTask) :
    s.removeTaskObjectEntry t = { s with
      taskByObject :=
        if s.taskByObject[taskObjectKey t.objectId t.kind]? = some t.id.bytes then
          s.taskByObject.erase (taskObjectKey t.objectId t.kind)
        else s.taskByObject } := by
  unfold removeTaskObjectEntry
  dsimp only
  split_ifs <;> rfl

theorem retireTask_eq (before after : ReplicaTask) (s : ClusterCatalog) :
    retireTask before after s = { s with
      taskByObject := (s.removeTaskObjectEntry after).taskByObject
      counters := (if before.state.active then s.adjustCounter "active_tasks" (-1) else s).counters } := by
  unfold retireTask
  dsimp only
  rw [removeTaskObjectEntry_eq]
  split_ifs <;> rfl

/-- The active task that an equal request finds. -/
def duplicate (s : ClusterCatalog) (t : ReplicaTask) : Option ReplicaTask :=
  ((s.taskByObject[taskObjectKey t.objectId t.kind]?).bind fun id => s.tasks[id]?).filter (·.state.active)

end ClusterCatalog

def ReplicaTaskState.isParked : ReplicaTaskState → Bool
  | parked .. => true
  | _ => false

theorem ReplicaTaskState.isParked_of_active {st : ReplicaTaskState} (h : st.active = true) : st.isParked = false := by
  cases st <;> first | rfl | cases h

/-- The report names no node, or one that holds the claim. -/
def ReplicaTask.Accepts (t : ReplicaTask) (node : Option NodeId) (fence : UInt64) : Prop :=
  ∀ n ∈ node, t.holdsClaim n fence = true

instance (t : ReplicaTask) (node : Option NodeId) (fence : UInt64) : Decidable (t.Accepts node fence) :=
  inferInstanceAs (Decidable (∀ n ∈ node, _))

theorem ReplicaTask.accepts_iff {t : ReplicaTask} {node : Option NodeId} {fence : UInt64} :
    ¬ (node.any fun n => !t.holdsClaim n fence) = true ↔ t.Accepts node fence := by
  cases node <;> simp [ReplicaTask.Accepts]

theorem ReplicaTask.fail_state (t : ReplicaTask) (reason : String) (attempts : UInt32) (time : DateTime) :
    (t.fail reason attempts time).state = .parked time reason ∨ (t.fail reason attempts time).state = .queued :=
  ite_eq_or_eq _ _ _

/-! ## Steps -/

variable {s s' : ClusterCatalog} {o : ClusterOutcome} {c : ClusterCommand}

/-- The command leaves everything as it is: an equal task is active, there is no such task, it is not queued or its
lease would have no end, the report is not from the holder of the claim, or the task to purge is active. -/
def ClusterCatalog.Ignores (s : ClusterCatalog) : ClusterCommand → Prop
  | .enqueueTask t => (s.duplicate t).isSome
  | .claimTask id _ leaseSeconds time =>
    ∀ t, s.task id = some t → t.state ≠ .queued ∨ addSeconds time (leaseDelta leaseSeconds) = none
  | .completeTask id node fence _ => ∀ t, s.task id = some t → ¬ t.Accepts node fence
  | .failTask id node fence _ _ _ => ∀ t, s.task id = some t → ¬ t.Accepts node fence
  | .requeueTask id _ _ => s.task id = none
  | .cancelTask id _ _ => s.task id = none
  | .purgeTask id => ∀ t, s.task id = some t → t.state.active = true
  | _ => False

/-- What a task that leaves the active ones takes off their counter. -/
def ReplicaTask.release (t : ReplicaTask) : Int := if t.state.active then -1 else 0

/-- How a command changes a task, and what it asks of the counters of active and of parked tasks. -/
inductive TaskMove : ClusterCommand → ReplicaTaskId → ReplicaTask → ReplicaTask → Int → Int → Prop
  | claim {id : ReplicaTaskId} {node : NodeId} {leaseSeconds : UInt64} {time expires : DateTime} {t : ReplicaTask}
      (hqueued : t.state = .queued) :
      TaskMove (.claimTask id node leaseSeconds time) id t (t.claim node expires time) 0 0
  | complete {id : ReplicaTaskId} {node : Option NodeId} {fence : UInt64} {time : DateTime} {t : ReplicaTask}
      (haccepts : t.Accepts node fence) :
      TaskMove (.completeTask id node fence time) id t (t.complete time) t.release 0
  | retry {id : ReplicaTaskId} {node : Option NodeId} {fence : UInt64} {reason : String} {attempts : UInt32}
      {time : DateTime} {t : ReplicaTask} (haccepts : t.Accepts node fence)
      (hactive : (t.fail reason attempts time).state.active = true) :
      TaskMove (.failTask id node fence reason attempts time) id t (t.fail reason attempts time) 0 0
  | park {id : ReplicaTaskId} {node : Option NodeId} {fence : UInt64} {reason : String} {attempts : UInt32}
      {time : DateTime} {t : ReplicaTask} (haccepts : t.Accepts node fence)
      (hactive : (t.fail reason attempts time).state.active = false) :
      TaskMove (.failTask id node fence reason attempts time) id t (t.fail reason attempts time) t.release 1
  | requeue {id : ReplicaTaskId} {reason : Option String} {time : DateTime} {t : ReplicaTask} :
      TaskMove (.requeueTask id reason time) id t (t.requeue reason time) (if t.state.active then 0 else 1)
        (if t.state.active then 0 else -1)
  | cancel {id : ReplicaTaskId} {reason : String} {time : DateTime} {t : ReplicaTask} :
      TaskMove (.cancelTask id reason time) id t (t.cancel reason time) t.release 0

/-- What no move changes. -/
theorem TaskMove.same {id : ReplicaTaskId} {t t' : ReplicaTask} {active parked : Int}
    (h : TaskMove c id t t' active parked) :
    t'.id = t.id ∧ t'.objectId = t.objectId ∧ t'.kind = t.kind ∧ t'.operationId = t.operationId := by
  cases h <;> exact ⟨rfl, rfl, rfl, rfl⟩

/-- The row of a task is written, its queue entry moved, and its index entry dropped if it is no longer active. -/
structure RewritesTask (s : ClusterCatalog) (id : ReplicaTaskId) (t t' : ReplicaTask) (s' : ClusterCatalog) : Prop where
  found : s.task id = some t
  tasks : s'.tasks = s.tasks.insert id.bytes t'
  queue : s'.taskQueue = if t'.state.active then
    (s.taskQueue.erase (taskQueueKey t)).insert (taskQueueKey t') t'.id.bytes
    else s.taskQueue.erase (taskQueueKey t)
  index : s'.taskByObject = if t'.state.active then s.taskByObject else (s.removeTaskObjectEntry t').taskByObject

/-- What a task command does, and what it asks of the two counters. -/
inductive TaskStep (s : ClusterCatalog) : ClusterCommand → Int → Int → ClusterCatalog → Prop
  | idle {c : ClusterCommand} (h : s.Ignores c) : TaskStep s c 0 0 s
  | enqueue {t : ReplicaTask} {s' : ClusterCatalog} (hnew : s.duplicate t = none)
      (htasks : s'.tasks = s.tasks.insert t.id.bytes t)
      (hqueue : s'.taskQueue = if t.state.active then s.taskQueue.insert (taskQueueKey t) t.id.bytes else s.taskQueue)
      (hindex : s'.taskByObject = s.taskByObject.insert (taskObjectKey t.objectId t.kind) t.id.bytes)
      (hasks : s.Asks s' 1 0) : TaskStep s (.enqueueTask t) 1 0 s'
  | rewrite {c : ClusterCommand} {id : ReplicaTaskId} {t t' : ReplicaTask} {active parked : Int} {s' : ClusterCatalog}
      (hmove : TaskMove c id t t' active parked) (h : RewritesTask s id t t' s') (hasks : s.Asks s' active parked) :
      TaskStep s c active parked s'
  | purge {id : ReplicaTaskId} {t : ReplicaTask} {s' : ClusterCatalog} (ht : s.task id = some t)
      (hdone : t.state.active = false)
      (htasks : s'.tasks = s.tasks.erase id.bytes) (hqueue : s'.taskQueue = s.taskQueue)
      (hindex : s'.taskByObject = s.taskByObject) (hasks : s.Asks s' 0 (if t.state.isParked then -1 else 0)) :
      TaskStep s (.purgeTask id) 0 (if t.state.isParked then -1 else 0) s'

open ClusterCatalog

/-- The row, the queue entry and the index entry of a task that stays active. -/
theorem rewritesTask_active {id : ReplicaTaskId} {t t' : ReplicaTask} (ht : s.task id = some t)
    (hactive : t'.state.active = true) :
    RewritesTask s id t t' (((s.removeTaskQueueEntry t).insertTaskQueueEntry t').putTask id t') := by
  rw [insertTaskQueueEntry_eq, if_pos hactive]
  refine ⟨ht, rfl, ?_, ?_⟩
  · rw [if_pos hactive]
    rfl
  · rw [if_pos hactive]
    rfl

theorem asks_active {s₁ : ClusterCatalog} {id : ReplicaTaskId} {t t' : ReplicaTask} :
    s₁.Asks (((s₁.removeTaskQueueEntry t).insertTaskQueueEntry t').putTask id t') 0 0 := by
  rw [insertTaskQueueEntry_eq]
  exact asks_of_counters rfl

theorem asks_retireTask {s₁ : ClusterCatalog} (h : s₁.counters = s.counters) (t t' : ReplicaTask) :
    s.Asks (retireTask t t' s₁) t.release 0 := by
  rw [retireTask_eq, ReplicaTask.release]
  split_ifs
  · have hsame : s.Asks s₁ 0 0 := asks_of_counters h
    exact hsame.active _
  · exact asks_of_counters h

/-- The same for one that leaves the active ones. -/
theorem rewritesTask_retireTask {id : ReplicaTaskId} {t t' : ReplicaTask} (ht : s.task id = some t)
    (hactive : t'.state.active = false) :
    RewritesTask s id t t' (retireTask t t' ((s.removeTaskQueueEntry t).putTask id t')) := by
  have hidle : ¬ t'.state.active = true := Bool.eq_false_iff.mp hactive
  rw [retireTask_eq, removeTaskObjectEntry_eq]
  refine ⟨ht, rfl, (if_neg hidle).symm, Eq.trans ?_ (if_neg hidle).symm⟩
  rw [removeTaskObjectEntry_eq]
  rfl

/-- Every task command that succeeds is a step. -/
theorem taskStep_of_returns (hc : c.taskId ≠ none) (h : Returns (applyCommandTx c) s o s') :
    ∃ active parked, TaskStep s c active parked s' := by
  cases c with
  | enqueueTask t =>
    simp only [applyCommandTx, enqueueTask, returns_bind, returns_read] at h
    obtain ⟨_, _, ⟨rfl, rfl⟩, h⟩ := h
    split at h
    · rename_i existing hexisting
      obtain ⟨-, rfl⟩ := returns_pure.mp h
      exact ⟨0, 0, .idle (by show (s'.duplicate t).isSome = true; rw [duplicate, hexisting]; rfl)⟩
    · rename_i hnone
      simp only [returns_bind, returns_modify, returns_pure] at h
      obtain ⟨_, _, rfl, _, _, rfl, -, rfl⟩ := h
      refine ⟨1, 0, .enqueue hnone ?_ ?_ ?_ ?_⟩
      all_goals rw [insertTaskQueueEntry_eq]
      · rfl
      · rfl
      · rfl
      · exact Asks.active (asks_of_counters rfl) 1
  | claimTask id node leaseSeconds time =>
    simp only [applyCommandTx, returns_bind, returns_requireTask, returns_ite, returns_modify, returns_okOr,
      returns_pure] at h
    obtain ⟨t, _, ⟨ht, rfl⟩, ⟨hqueued, _, _, rfl, expires, _, ⟨-, rfl⟩, _, _, rfl, -, rfl⟩ | ⟨hbusy, -, rfl⟩⟩ := h
    · exact ⟨0, 0, .rewrite (.claim hqueued) (rewritesTask_active ht rfl) asks_active⟩
    · exact ⟨0, 0, .idle fun u hu => .inl (by obtain rfl := Option.some.inj (ht.symm.trans hu); exact hbusy)⟩
  | completeTask id node fence time =>
    simp only [applyCommandTx, returns_bind, returns_requireTask, returns_ite, returns_modify, returns_pure] at h
    obtain ⟨t, _, ⟨ht, rfl⟩, ⟨hstale, -, rfl⟩ | ⟨haccepts, _, _, rfl, -, rfl⟩⟩ := h
    · refine ⟨0, 0, .idle fun u hu h => ?_⟩
      obtain rfl := Option.some.inj (ht.symm.trans hu)
      exact ReplicaTask.accepts_iff.mpr h hstale
    · exact ⟨_, _, .rewrite (.complete (ReplicaTask.accepts_iff.mp haccepts)) (rewritesTask_retireTask ht rfl)
        (asks_retireTask rfl _ _)⟩
  | failTask id node fence reason attempts time =>
    simp only [applyCommandTx, returns_bind, returns_requireTask, returns_ite, returns_modify, returns_pure] at h
    obtain ⟨t, _, ⟨ht, rfl⟩, ⟨hstale, -, rfl⟩ | ⟨haccepts, _, _, rfl, h⟩⟩ := h
    · refine ⟨0, 0, .idle fun u hu h => ?_⟩
      obtain rfl := Option.some.inj (ht.symm.trans hu)
      exact ReplicaTask.accepts_iff.mpr h hstale
    rw [ReplicaTask.accepts_iff] at haccepts
    obtain ⟨hactive, _, _, rfl, _, _, rfl, -, rfl⟩ | ⟨hparked, _, _, rfl, _, _, rfl, -, rfl⟩ := h
    · exact ⟨0, 0, .rewrite (.retry haccepts hactive) (rewritesTask_active ht hactive) asks_active⟩
    · have hinactive := Bool.eq_false_iff.mpr hparked
      refine ⟨_, _, .rewrite (.park haccepts hinactive) ?_ ((asks_retireTask rfl _ _).parked 1)⟩
      -- the row is written last here, which makes no difference
      have hrow := rewritesTask_retireTask ht hinactive
      rw [retireTask_eq, removeTaskObjectEntry_eq] at hrow ⊢
      exact ⟨ht, rfl, hrow.queue, hrow.index⟩
  | requeueTask id reason time =>
    simp only [applyCommandTx, returns_bind, returns_requireTask, returns_when, returns_modify, returns_pure] at h
    obtain ⟨t, _, ⟨ht, rfl⟩, _, _, rfl, _, _, h, -, rfl⟩ := h
    have hmove := @TaskMove.requeue id reason time t
    have hqueued : (t.requeue reason time).state.active = true := rfl
    have hrow := rewritesTask_active ht hqueued
    rcases h with ⟨hidle, rfl⟩ | ⟨hactive, rfl⟩
    · rw [if_neg hidle, if_neg hidle] at hmove
      refine ⟨_, _, .rewrite hmove ⟨hrow.found, hrow.tasks, hrow.queue, hrow.index⟩ ?_⟩
      exact (asks_active.active 1).parked (-1)
    · rw [if_pos (not_not.mp hactive), if_pos (not_not.mp hactive)] at hmove
      exact ⟨_, _, .rewrite hmove hrow asks_active⟩
  | cancelTask id reason time =>
    simp only [applyCommandTx, returns_bind, returns_requireTask, returns_modify, returns_pure] at h
    obtain ⟨t, _, ⟨ht, rfl⟩, _, _, rfl, -, rfl⟩ := h
    exact ⟨_, _, .rewrite .cancel (rewritesTask_retireTask ht rfl) (asks_retireTask rfl _ _)⟩
  | purgeTask id =>
    simp only [applyCommandTx, returns_bind, returns_read] at h
    obtain ⟨_, _, ⟨rfl, rfl⟩, h⟩ := h
    split at h
    · rename_i hnone
      obtain ⟨-, rfl⟩ := returns_pure.mp h
      exact ⟨0, 0, .idle fun t ht => by rw [hnone] at ht; cases ht⟩
    · rename_i t ht
      simp only [returns_ite, returns_bind, returns_when, returns_modify, returns_pure] at h
      obtain ⟨hactive, -, rfl⟩ | ⟨hdone, _, _, ⟨hparked, rfl⟩ | ⟨hparked, rfl⟩, _, _, rfl, -, rfl⟩ := h
      · exact ⟨0, 0, .idle fun u hu => by obtain rfl := Option.some.inj (ht.symm.trans hu); exact hactive⟩
      · refine ⟨_, _, .purge ht (Bool.eq_false_iff.mpr hdone) rfl rfl rfl ?_⟩
        have hstate : t.state.isParked = true := by
          cases hst : t.state <;> rw [hst] at hparked <;> first | rfl | cases hparked
        rw [if_pos hstate]
        exact Asks.parked (asks_of_counters rfl) (-1)
      · refine ⟨_, _, .purge ht (Bool.eq_false_iff.mpr hdone) rfl rfl rfl ?_⟩
        have hstate : ¬ t.state.isParked = true := by
          cases hst : t.state <;> rw [hst] at hparked <;> first | exact absurd rfl hparked | exact Bool.false_ne_true
        rw [if_neg hstate]
        exact asks_of_counters rfl
  | _ => exact absurd rfl hc

theorem fails_requireTask {id : ReplicaTaskId} {e : ClusterFailure} (h : Fails (requireTask id) s e) :
    s.task id = none := by
  unfold requireTask at h
  simp only [fails_bind, fails_read, returns_read, fails_okOr, false_or] at h
  obtain ⟨_, _, ⟨rfl, rfl⟩, h, -⟩ := h
  exact h

/-- A task command that fails would have changed nothing: there is no such task, or its lease would have no end. -/
theorem ignores_of_fails (hc : c.taskId ≠ none) {e : ClusterFailure} (h : Fails (applyCommandTx c) s e) :
    s.Ignores c := by
  have hnone : ∀ {id : ReplicaTaskId} {P : ReplicaTask → Prop}, Fails (requireTask id) s e → ∀ t,
    s.task id = some t → P t :=
    fun hf t ht => by rw [fails_requireTask hf] at ht; cases ht
  cases c with
  | enqueueTask t =>
    simp only [applyCommandTx, enqueueTask, fails_bind, fails_read, returns_read, false_or] at h
    obtain ⟨_, _, -, h⟩ := h
    split at h
    all_goals simp only [fails_bind, fails_modify, fails_pure, false_or, and_false, exists_false] at h
  | claimTask id node leaseSeconds time =>
    simp only [applyCommandTx, fails_bind, returns_requireTask, fails_ite, fails_modify, returns_modify, fails_okOr,
      returns_okOr, fails_pure, false_or, or_false, and_false, exists_false] at h
    rcases h with h | ⟨t, _, ⟨ht, rfl⟩, -, _, _, rfl, hlease, -⟩
    · exact hnone h
    · exact fun _ _ => .inr hlease
  | completeTask id node fence time | failTask id node fence reason attempts time =>
    simp only [applyCommandTx, fails_bind, fails_ite, fails_modify, fails_pure, or_false, and_false, exists_false] at h
    exact hnone h
  | requeueTask id reason time =>
    simp only [applyCommandTx, fails_bind, fails_when, fails_modify, fails_pure, or_false, and_false, exists_false] at h
    exact fails_requireTask h
  | cancelTask id reason time =>
    simp only [applyCommandTx, fails_bind, fails_modify, fails_pure, or_false, and_false, exists_false] at h
    exact fails_requireTask h
  | purgeTask id =>
    simp only [applyCommandTx, fails_bind, fails_read, returns_read, false_or] at h
    obtain ⟨_, _, -, h⟩ := h
    split at h
    all_goals simp only [fails_bind, fails_ite, fails_when, fails_modify, fails_pure, and_false, exists_false,
      or_false] at h
  | _ => exact absurd rfl hc

/-- The catalog after a command.  A refused one changes nothing. -/
def ClusterCatalog.next (s : ClusterCatalog) (c : ClusterCommand) : ClusterCatalog := (commit (applyCommandTx c) s).2

theorem taskStep_next (s : ClusterCatalog) (hc : c.taskId ≠ none) : ∃ active parked,
    TaskStep s c active parked (s.next c) := by
  unfold ClusterCatalog.next
  rcases returns_or_fails (applyCommandTx c) s with ⟨o, s', hr⟩ | ⟨e, hf⟩
  · rw [commit_of_returns hr]
    exact taskStep_of_returns hc hr
  · rw [commit_of_fails hf]
    exact ⟨0, 0, .idle (ignores_of_fails hc hf)⟩

end RecordStore.Cluster

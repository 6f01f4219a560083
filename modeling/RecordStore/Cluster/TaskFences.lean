import RecordStore.Cluster.TaskBooks

/-!
# Cluster.TaskFences — a claim and the reports under it

A claim raises the fence of a task, and a report with a node and a fence is heard only from the holder of the claim.  As
long as no identifier is used twice, tasks are enqueued as queued ones and no fence is at `u64::MAX`, a fence names one
claim in the whole run: a report is heard only while that claim is held, and at most once.
-/

namespace RecordStore.Cluster

open RecordStore.Lib RecordStore.Core

namespace ClusterCatalog

/-! ## Runs by position -/

section Runs

variable (s : ClusterCatalog) (commands : List ClusterCommand)

/-- The catalog after the first `n` commands. -/
def reached (n : Nat) : ClusterCatalog := (commands.take n).foldl next s

/-- Command `n` claims the task for the node under the fence: it was queued, and now the node holds it. -/
def Grants (n : Nat) (id : ReplicaTaskId) (node : NodeId) (fence : UInt64) : Prop :=
  ∃ leaseSeconds time t t', commands[n]? = some (.claimTask id node leaseSeconds time) ∧
    (s.reached commands n).task id = some t ∧ t.state = .queued ∧
    (s.reached commands (n + 1)).task id = some t' ∧ t'.holdsClaim node fence = true

/-- The node holds the task under the fence after the first `n` commands. -/
def Held (n : Nat) (id : ReplicaTaskId) (node : NodeId) (fence : UInt64) : Prop :=
  ∃ t, (s.reached commands n).task id = some t ∧ t.holdsClaim node fence = true

/-- What a report carries. -/
def Reports (commands : List ClusterCommand) (n : Nat) (id : ReplicaTaskId) (node : NodeId) (fence : UInt64) : Prop :=
  (∃ time, commands[n]? = some (.completeTask id (some node) fence time)) ∨
    ∃ reason attempts time, commands[n]? = some (.failTask id (some node) fence reason attempts time)

/-- A task that is enqueued is queued and its identifier was never used; a task that is claimed has not used up its
fences. -/
def Admits (n : Nat) : Prop :=
  match commands[n]? with
  | some (.enqueueTask t) => (s.reached commands n).duplicate t = none →
      t.state = .queued ∧ ∀ k ≤ n, (s.reached commands k).task t.id = none
  | some (.claimTask id _ _ _) => ∀ t ∈ (s.reached commands n).task id, t.state = .queued → t.fence.toNat + 1 < 2 ^ 64
  | _ => True

instance (n : Nat) : Decidable (s.Admits commands n) := by
  unfold Admits
  split <;> infer_instance

end Runs

variable {s : ClusterCatalog} {commands : List ClusterCommand} {n : Nat} {c : ClusterCommand}

theorem reached_succ (h : commands[n]? = some c) : s.reached commands (n + 1) = (s.reached commands n).next c := by
  unfold reached
  rw [List.take_add_one, h, Option.toList_some, List.foldl_append]
  rfl

theorem reached_of_length_le (h : commands[n]? = none) : s.reached commands (n + 1) = s.reached commands n := by
  unfold reached
  rw [List.take_add_one, h, Option.toList_none, List.append_nil]

end ClusterCatalog

/-! ## One row in one step -/

variable {s s' : ClusterCatalog} {c : ClusterCommand} {id : ReplicaTaskId} {t t' : ReplicaTask} {active parked : Int}

/-- What becomes of the row of a task. -/
inductive RowStep (s : ClusterCatalog) (c : ClusterCommand) (id : ReplicaTaskId) :
    Option ReplicaTask → Option ReplicaTask → Prop
  | same {row : Option ReplicaTask} : RowStep s c id row row
  | enqueued {row : Option ReplicaTask} {t : ReplicaTask} (hc : c = .enqueueTask t) (hid : t.id = id)
      (hnew : s.duplicate t = none) : RowStep s c id row (some t)
  | moved {t t' : ReplicaTask} {active parked : Int} (h : TaskMove c id t t' active parked) :
      RowStep s c id (some t) (some t')
  | purged {t : ReplicaTask} : RowStep s c id (some t) none

theorem TaskStep.row (h : TaskStep s c active parked s') (id : ReplicaTaskId) :
    RowStep s c id (s.task id) (s'.task id) := by
  have hother : ∀ {i : ReplicaTaskId}, id ≠ i → id.bytes ≠ i.bytes := fun hne e => hne (Id.bytes_inj.mp e)
  unfold ClusterCatalog.task
  cases h with
  | idle h => exact .same
  | @enqueue t s' hnew htasks hqueue hindex hasks =>
    rw [htasks, Table.lookup_insert]
    split_ifs with hid
    · exact .enqueued rfl (Id.bytes_inj.mp hid).symm hnew
    · exact .same
  | @rewrite c i t t' active parked s' hmove h hasks =>
    rw [h.tasks, Table.lookup_insert]
    split_ifs with hid
    · obtain rfl := Id.bytes_inj.mp hid
      rw [show s.tasks[id.bytes]? = some t from h.found]
      exact .moved hmove
    · exact .same
  | @purge i t s' ht hdone htasks hqueue hindex hasks =>
    rw [htasks, Table.lookup_erase]
    split_ifs with hid
    · rw [hid, show s.tasks[i.bytes]? = some t from ht]
      exact .purged
    · exact .same

/-- The holder of a claim, its fence, and a task that is running. -/
theorem ReplicaTask.holdsClaim_iff {node : NodeId} {fence : UInt64} :
    t.holdsClaim node fence = true ↔
      t.fence = fence ∧ fence ≠ 0 ∧ ∃ startedAt leaseExpiresAt, t.state = .running node startedAt leaseExpiresAt := by
  unfold ReplicaTask.holdsClaim
  cases t.state <;> simp [and_assoc]

theorem ReplicaTask.fail_not_running (t : ReplicaTask) {reason : String} {attempts : UInt32} {time : DateTime}
    {holder : NodeId} {startedAt leaseExpiresAt : DateTime} :
    (t.fail reason attempts time).state ≠ .running holder startedAt leaseExpiresAt := by
  intro h
  rcases t.fail_state reason attempts time with hst | hst
  all_goals cases hst.symm.trans h

/-! ## A run in which identifiers and fences are not used up -/

/-- The run starts without tasks, consists of task commands, and each of them is admissible. -/
structure ClusterCatalog.Orderly (s : ClusterCatalog) (commands : List ClusterCommand) : Prop where
  starts : ∀ id, s.task id = none
  tasks : ∀ c ∈ commands, c.taskId ≠ none
  admits : ∀ n < commands.length, s.Admits commands n

namespace ClusterCatalog.Orderly

variable {commands : List ClusterCommand} {m n : Nat} {node : NodeId} {fence : UInt64}

/-- The row of a task across command `n`. -/
theorem row (h : s.Orderly commands) (hc : commands[n]? = some c) (id : ReplicaTaskId) :
    RowStep (s.reached commands n) c id ((s.reached commands n).task id) ((s.reached commands (n + 1)).task id) := by
  obtain ⟨active, parked, hstep⟩ := taskStep_next (s.reached commands n) (h.tasks c (List.mem_of_getElem? hc))
  rw [reached_succ hc]
  exact hstep.row id

theorem fresh (h : s.Orderly commands) (hc : commands[n]? = some (.enqueueTask t))
    (hnew : (s.reached commands n).duplicate t = none) :
    t.state = .queued ∧ ∀ k ≤ n, (s.reached commands k).task t.id = none := by
  have hadmits := h.admits n (List.getElem?_eq_some_iff.mp hc).1
  unfold Admits at hadmits
  rw [hc] at hadmits
  exact hadmits hnew

theorem unspent (h : s.Orderly commands) {leaseSeconds : UInt64} {time : DateTime}
    (hc : commands[n]? = some (.claimTask id node leaseSeconds time)) (ht : (s.reached commands n).task id = some t)
    (hqueued : t.state = .queued) : t.fence.toNat + 1 < 2 ^ 64 := by
  have hadmits := h.admits n (List.getElem?_eq_some_iff.mp hc).1
  unfold Admits at hadmits
  rw [hc] at hadmits
  exact hadmits t ht hqueued

/-- A row that is there before and after command `n` stays or is moved by it. -/
theorem stays_or_moves (h : s.Orderly commands) (ht : (s.reached commands n).task id = some t)
    (ht' : (s.reached commands (n + 1)).task id = some t') :
    t' = t ∨ ∃ c active parked, commands[n]? = some c ∧ TaskMove c id t t' active parked := by
  cases hc : commands[n]? with
  | none =>
    rw [reached_of_length_le hc, ht] at ht'
    exact .inl (Option.some.inj ht').symm
  | some c =>
    have hrow := h.row hc id
    rw [ht, ht'] at hrow
    cases hrow with
    | same => exact .inl rfl
    | enqueued he hid hnew =>
      subst he hid
      cases ((h.fresh hc hnew).2 n le_rfl).symm.trans ht
    | moved hmove => exact .inr ⟨c, _, _, rfl, hmove⟩

/-- An identifier that was in use and still is has been in use all the time. -/
theorem in_use (h : s.Orderly commands) (hmn : m ≤ n) (ht : (s.reached commands m).task id = some t)
    (ht' : (s.reached commands (n + 1)).task id = some t') : ∃ u, (s.reached commands n).task id = some u := by
  rw [← Option.isSome_iff_exists, Option.isSome_iff_ne_none]
  intro hnone
  cases hc : commands[n]? with
  | none =>
    rw [reached_of_length_le hc, hnone] at ht'
    cases ht'
  | some c =>
    have hrow := h.row hc id
    rw [hnone, ht'] at hrow
    cases hrow with
    | enqueued he hid hnew =>
      subst he hid
      cases ((h.fresh hc hnew).2 m hmn).symm.trans ht

theorem fence_le_succ (h : s.Orderly commands) (ht : (s.reached commands n).task id = some t)
    (ht' : (s.reached commands (n + 1)).task id = some t') : t.fence.toNat ≤ t'.fence.toNat := by
  rcases h.stays_or_moves ht ht' with rfl | ⟨c, active, parked, -, hmove⟩
  · exact le_rfl
  · cases hmove with
    | claim hqueued =>
      show t.fence.toNat ≤ (saturatingAdd t.fence 1).toNat
      have hlt := t.fence.toNat_lt
      rw [saturatingAdd_toNat, UInt64.toNat_one]
      omega
    | _ => exact le_rfl

/-- The fence of a task never falls. -/
theorem fence_mono (h : s.Orderly commands) (hmn : m ≤ n) (ht : (s.reached commands m).task id = some t)
    (ht' : (s.reached commands n).task id = some t') : t.fence.toNat ≤ t'.fence.toNat := by
  induction n, hmn using Nat.le_induction generalizing t' with
  | base => exact (congrArg (·.fence.toNat) (Option.some.inj (ht.symm.trans ht'))).le
  | succ n hmn ih =>
    obtain ⟨u, hu⟩ := h.in_use hmn ht ht'
    exact (ih hu).trans (h.fence_le_succ hu ht')

/-! ### Claims -/

/-- A claim raises the fence by one, and its holder has the new one. -/
theorem granted (h : s.Orderly commands) (hg : s.Grants commands n id node fence) :
    ∃ t t', (s.reached commands n).task id = some t ∧ t.state = .queued ∧
      (s.reached commands (n + 1)).task id = some t' ∧ t'.fence = fence ∧ t'.fence.toNat = t.fence.toNat + 1 := by
  obtain ⟨leaseSeconds, time, t, t', hc, ht, hqueued, ht', hholds⟩ := hg
  obtain ⟨hfence, -, _, _, hrunning⟩ := ReplicaTask.holdsClaim_iff.mp hholds
  refine ⟨t, t', ht, hqueued, ht', hfence, ?_⟩
  rcases h.stays_or_moves ht ht' with rfl | ⟨c, active, parked, hc', hmove⟩
  · cases hqueued.symm.trans hrunning
  · obtain rfl := Option.some.inj (hc.symm.trans hc')
    have hunspent := h.unspent hc ht hqueued
    cases hmove with
    | claim =>
      show (saturatingAdd t.fence 1).toNat = _
      rw [saturatingAdd_toNat, UInt64.toNat_one]
      omega

theorem not_granted_before (h : s.Orderly commands) (hg : s.Grants commands m id node fence) {node' : NodeId}
    (hg' : s.Grants commands n id node' fence) : ¬ m < n := by
  intro hmn
  obtain ⟨-, u, -, -, hu, hfence, -⟩ := h.granted hg
  obtain ⟨t, t', ht, -, -, hfence', hnext⟩ := h.granted hg'
  have hle := h.fence_mono hmn hu ht
  rw [hfence] at hle
  rw [hfence'] at hnext
  omega

/-- A fence names one claim of the task. -/
theorem grants_inj (h : s.Orderly commands) (hg : s.Grants commands m id node fence) {node' : NodeId}
    (hg' : s.Grants commands n id node' fence) : m = n :=
  Nat.le_antisymm (Nat.not_lt.mp (h.not_granted_before hg' hg)) (Nat.not_lt.mp (h.not_granted_before hg hg'))

/-- A task that becomes held is claimed. -/
theorem grants_of_held (h : s.Orderly commands) (hbefore : ¬ s.Held commands n id node fence)
    (hafter : s.Held commands (n + 1) id node fence) : s.Grants commands n id node fence := by
  obtain ⟨t', ht', hholds⟩ := hafter
  obtain ⟨-, -, startedAt, leaseExpiresAt, hrunning⟩ := ReplicaTask.holdsClaim_iff.mp hholds
  have hkept : (s.reached commands n).task id ≠ some t' := fun ht => hbefore ⟨t', ht, hholds⟩
  cases hc : commands[n]? with
  | none =>
    rw [reached_of_length_le hc] at ht'
    exact absurd ht' hkept
  | some c =>
    have hrow := h.row hc id
    generalize hold : (s.reached commands n).task id = row at hrow hkept
    rw [ht'] at hrow
    cases hrow with
    | same => exact absurd rfl hkept
    | enqueued he hid hnew =>
      subst he
      cases (h.fresh hc hnew).1.symm.trans hrunning
    | @moved t _ active parked hmove =>
      cases hmove with
      | @claim _ holder leaseSeconds time expires _ hqueued =>
        obtain rfl : holder = node := (ReplicaTaskState.running.inj hrunning).1
        exact ⟨leaseSeconds, time, t, _, hc, hold, hqueued, ht', hholds⟩
      | retry | park => exact absurd hrunning (ReplicaTask.fail_not_running t)
      | _ => cases hrunning

/-- Whoever holds a task has claimed it, and has held it since. -/
theorem held_since (h : s.Orderly commands) : ∀ n, s.Held commands n id node fence →
    ∃ m < n, s.Grants commands m id node fence ∧ ∀ k, m < k → k ≤ n → s.Held commands k id node fence
  | 0, ⟨t, ht, _⟩ => by cases (h.starts id).symm.trans ht
  | n + 1, hheld => by
    by_cases hbefore : s.Held commands n id node fence
    · obtain ⟨m, hmn, hgrants, hsince⟩ := held_since h n hbefore
      refine ⟨m, by omega, hgrants, fun k hmk hkn => ?_⟩
      rcases Nat.le_succ_iff.mp hkn with hkn | rfl
      · exact hsince k hmk hkn
      · exact hheld
    · refine ⟨n, by omega, h.grants_of_held hbefore hheld, fun k hmk hkn => ?_⟩
      obtain rfl : k = n + 1 := by omega
      exact hheld

/-! ### Reports -/

/-- A report changes nothing, or it comes from the holder, who does not hold the task any more afterwards. -/
theorem heard (h : s.Orderly commands) (hreport : Reports commands n id node fence) :
    s.reached commands (n + 1) = s.reached commands n ∨
      s.Held commands n id node fence ∧ ¬ s.Held commands (n + 1) id node fence := by
  obtain ⟨c, hc, hkind⟩ : ∃ c, commands[n]? = some c ∧ ((∃ time, c = .completeTask id (some node) fence time) ∨
      ∃ reason attempts time, c = .failTask id (some node) fence reason attempts time) := by
    rcases hreport with ⟨time, hc⟩ | ⟨reason, attempts, time, hc⟩
    · exact ⟨_, hc, .inl ⟨time, rfl⟩⟩
    · exact ⟨_, hc, .inr ⟨reason, attempts, time, rfl⟩⟩
  obtain ⟨active, parked, hstep⟩ := taskStep_next (s.reached commands n) (h.tasks c (List.mem_of_getElem? hc))
  unfold Held
  rw [reached_succ hc]
  generalize (s.reached commands n).next c = s' at hstep ⊢
  cases hstep with
  | idle => exact .inl rfl
  | enqueue => rcases hkind with ⟨_, hc'⟩ | ⟨_, _, _, hc'⟩ <;> cases hc'
  | purge => rcases hkind with ⟨_, hc'⟩ | ⟨_, _, _, hc'⟩ <;> cases hc'
  | @rewrite c i t t' active parked s' hmove hrow hasks =>
    have hput : s'.task i = some t' := by
      rw [ClusterCatalog.task, hrow.tasks, Table.lookup_insert_self]
    -- the row written is not running
    have hdone : i = id ∧ t.Accepts (some node) fence ∧ ∀ holder startedAt leaseExpiresAt,
        t'.state ≠ .running holder startedAt leaseExpiresAt := by
      rcases hkind with ⟨_, rfl⟩ | ⟨_, _, _, rfl⟩
      · cases hmove with
        | complete haccepts => exact ⟨rfl, haccepts, fun _ _ _ h => by cases h⟩
      · cases hmove with
        | retry haccepts | park haccepts => exact ⟨rfl, haccepts, fun _ _ _ => ReplicaTask.fail_not_running t⟩
    obtain ⟨rfl, haccepts, hidle⟩ := hdone
    refine .inr ⟨⟨t, hrow.found, haccepts node rfl⟩, ?_⟩
    rintro ⟨u, hu, hholds⟩
    obtain rfl := Option.some.inj (hput.symm.trans hu)
    obtain ⟨-, -, _, _, hrunning⟩ := ReplicaTask.holdsClaim_iff.mp hholds
    exact hidle _ _ _ hrunning

/-- A report that is heard comes under the claim of its fence, which has been held since. -/
theorem claim_of_heard (h : s.Orderly commands) (hreport : Reports commands n id node fence)
    (hheard : s.reached commands (n + 1) ≠ s.reached commands n) :
    ∃ m < n, s.Grants commands m id node fence ∧ ∀ k, m < k → k ≤ n → s.Held commands k id node fence := by
  rcases h.heard hreport with hsame | ⟨hheld, -⟩
  · exact absurd hsame hheard
  · exact h.held_since n hheld

theorem not_heard_before (h : s.Orderly commands) {n' : Nat} (hreport : Reports commands n id node fence)
    (hreport' : Reports commands n' id node fence) (hheard : s.reached commands (n + 1) ≠ s.reached commands n)
    (hheard' : s.reached commands (n' + 1) ≠ s.reached commands n') : ¬ n < n' := by
  intro hlt
  obtain ⟨m, hmn, hgrants, -⟩ := h.claim_of_heard hreport hheard
  obtain ⟨m', -, hgrants', hsince⟩ := h.claim_of_heard hreport' hheard'
  obtain rfl := h.grants_inj hgrants hgrants'
  rcases h.heard hreport with hsame | ⟨-, hreleased⟩
  · exact hheard hsame
  · exact hreleased (hsince (n + 1) (by omega) (by omega))

end ClusterCatalog.Orderly

open ClusterCatalog

/-- In a run that starts without tasks, in which tasks are enqueued as queued ones under identifiers that were never
used and no fence is at its maximum when it is to be raised:

* the fence of a task rises by one with each claim and stays the same otherwise;
* a report with a node and a fence changes nothing, or the node has claimed the task under this fence and held it
  since;
* at most one report under a claim changes anything;
* a report under a claim that was not held at some time since, because the task was requeued or claimed again, changes
  nothing. -/
theorem claims_fenced {commands : List ClusterCommand} (h : s.Orderly commands) :
    (∀ n id t t', (s.reached commands n).task id = some t → (s.reached commands (n + 1)).task id = some t' →
      ((∃ node fence, s.Grants commands n id node fence) ∧ t'.fence.toNat = t.fence.toNat + 1) ∨
        ((∀ node fence, ¬ s.Grants commands n id node fence) ∧ t'.fence = t.fence)) ∧
    (∀ n id node fence, Reports commands n id node fence → s.reached commands (n + 1) ≠ s.reached commands n →
      ∃ m < n, s.Grants commands m id node fence ∧ (∀ k, m < k → k ≤ n → s.Held commands k id node fence) ∧
        ∀ k, m < k → k < n → ∀ node' fence', ¬ s.Grants commands k id node' fence') ∧
    (∀ n n' id node fence, Reports commands n id node fence → Reports commands n' id node fence →
      s.reached commands (n + 1) ≠ s.reached commands n →
        s.reached commands (n' + 1) ≠ s.reached commands n' → n = n') ∧
    ∀ m n k id node fence, s.Grants commands m id node fence → m < k → k ≤ n → ¬ s.Held commands k id node fence →
      Reports commands n id node fence → s.reached commands (n + 1) = s.reached commands n := by
  refine ⟨fun n id t t' ht ht' => ?_, fun n id node fence hreport hheard => ?_,
    fun n n' id node fence hr hr' hh hh' => ?_, fun m n k id node fence hgrants hmk hkn hlost hreport => ?_⟩
  · by_cases hg : ∃ node fence, s.Grants commands n id node fence
    · obtain ⟨u, u', hu, -, hu', -, hnext⟩ := h.granted hg.choose_spec.choose_spec
      rw [ht] at hu
      rw [ht'] at hu'
      cases hu
      cases hu'
      exact .inl ⟨hg, hnext⟩
    · refine .inr ⟨fun node fence hgrants => hg ⟨node, fence, hgrants⟩, ?_⟩
      rcases h.stays_or_moves ht ht' with rfl | ⟨c, active, parked, hc, hmove⟩
      · rfl
      · cases hmove with
        | @claim _ node leaseSeconds time expires _ hqueued =>
          exact absurd ⟨node, _, leaseSeconds, time, t, _, hc, ht, hqueued, ht',
            ReplicaTask.holdsClaim_claim t node expires time⟩ hg
        | _ => rfl
  · obtain ⟨m, hmn, hgrants, hsince⟩ := h.claim_of_heard hreport hheard
    refine ⟨m, hmn, hgrants, hsince, fun k hmk hkn node' fence' hg => ?_⟩
    obtain ⟨t, ht, hholds⟩ := hsince k hmk hkn.le
    obtain ⟨u, -, hu, hqueued, -⟩ := h.granted hg
    obtain rfl := Option.some.inj (ht.symm.trans hu)
    obtain ⟨-, -, _, _, hrunning⟩ := ReplicaTask.holdsClaim_iff.mp hholds
    cases hqueued.symm.trans hrunning
  · exact Nat.le_antisymm (Nat.not_lt.mp (h.not_heard_before hr' hr hh' hh))
      (Nat.not_lt.mp (h.not_heard_before hr hr' hh hh'))
  · by_contra hheard
    obtain ⟨m', hmn, hgrants', hsince⟩ := h.claim_of_heard hreport hheard
    obtain rfl := h.grants_inj hgrants hgrants'
    exact hlost (hsince k hmk hkn)

namespace Sample

/-- The repair is claimed by one node, requeued and claimed by another; the first one reports late. -/
def overtaken : List ClusterCommand :=
  [.enqueueTask (repair 1), .claimTask (.ofNat 1) (.ofNat 2) 60 .epoch, .requeueTask (.ofNat 1) none .epoch,
    .claimTask (.ofNat 1) (.ofNat 3) 60 .epoch, .completeTask (.ofNat 1) (some (.ofNat 2)) 1 .epoch,
    .completeTask (.ofNat 1) (some (.ofNat 3)) 2 .epoch]

/-- The repair is claimed, cancelled and purged, and enqueued and claimed again; the report is under the first claim. -/
def reused : List ClusterCommand :=
  [.enqueueTask (repair 1), .claimTask (.ofNat 1) (.ofNat 2) 60 .epoch, .cancelTask (.ofNat 1) "gone" .epoch,
    .purgeTask (.ofNat 1), .enqueueTask (repair 1), .claimTask (.ofNat 1) (.ofNat 2) 60 .epoch,
    .completeTask (.ofNat 1) (some (.ofNat 2)) 1 .epoch]

/-- A task that is enqueued with the last fence, claimed, requeued and claimed again. -/
def worn : List ClusterCommand :=
  [.enqueueTask { repair 1 with fence := 0xffffffffffffffff }, .claimTask (.ofNat 1) (.ofNat 2) 60 .epoch,
    .requeueTask (.ofNat 1) none .epoch, .claimTask (.ofNat 1) (.ofNat 2) 60 .epoch]

theorem orderly_overtaken : ClusterCatalog.empty.Orderly overtaken :=
  ⟨fun id => Table.lookup_empty id.bytes, by decide +kernel, by decide +kernel⟩

end Sample

theorem claims_fenced_overtaken : ClusterCatalog.empty.Orderly Sample.overtaken ∧
    ClusterCatalog.empty.reached Sample.overtaken 5 = ClusterCatalog.empty.reached Sample.overtaken 4 := by
  refine ⟨Sample.orderly_overtaken, ?_⟩
  have hclaim : ClusterCatalog.empty.Grants Sample.overtaken 1 (.ofNat 1) (.ofNat 2) 1 := by
    refine ⟨60, .epoch, Sample.repair 1, (Sample.repair 1).claim (.ofNat 2) ⟨60, 0, by decide, by decide⟩ .epoch,
      rfl, ?_, rfl, ?_⟩
    all_goals decide +kernel
  have hrequeued : (ClusterCatalog.empty.reached Sample.overtaken 3).task (.ofNat 1) =
      some (((Sample.repair 1).claim (.ofNat 2) ⟨60, 0, by decide, by decide⟩ .epoch).requeue none .epoch) := by
    decide +kernel
  refine (claims_fenced Sample.orderly_overtaken).2.2.2 1 4 3 (.ofNat 1) (.ofNat 2) 1 hclaim (by decide) (by decide) ?_
    (.inl ⟨.epoch, rfl⟩)
  rintro ⟨t, ht, hholds⟩
  rw [← Option.some.inj (hrequeued.symm.trans ht)] at hholds
  cases hholds

/-- A report under a claim that was cancelled is heard after the identifier was used again, and a claim of a task with
the last fence does not raise it. -/
theorem claims_reused_and_worn :
    ((∀ c ∈ Sample.reused, c.taskId ≠ none) ∧
      ((ClusterCatalog.empty.reached Sample.reused 2).task (.ofNat 1)).any (·.holdsClaim (.ofNat 2) 1) ∧
      ((ClusterCatalog.empty.reached Sample.reused 3).task (.ofNat 1)).any (!·.holdsClaim (.ofNat 2) 1) ∧
      ((ClusterCatalog.empty.reached Sample.reused 6).task (.ofNat 1)).any (·.state.active) ∧
      ((ClusterCatalog.empty.reached Sample.reused 7).task (.ofNat 1)).any (!·.state.active)) ∧
    (∀ c ∈ Sample.worn, c.taskId ≠ none) ∧
    [2, 4].map (fun n => ((ClusterCatalog.empty.reached Sample.worn n).task (.ofNat 1)).map fun t =>
        (t.fence, t.holdsClaim (.ofNat 2) 0xffffffffffffffff)) =
      [some (0xffffffffffffffff, true), some (0xffffffffffffffff, true)] := by
  decide +kernel

end RecordStore.Cluster

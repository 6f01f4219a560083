import RecordStore.Lib.Pool
import RecordStore.Cluster.TaskSteps

/-!
# Cluster.TaskBooks — counters, queue and index of the movement tasks

The commands do not all look at the state a task leaves.  A parked task that is completed, cancelled or failed again
stays on the counter of parked ones, any inactive task that is requeued is taken off it, and a task that becomes
active again does not get its index entry back.  Each invariant is kept by a step exactly if the step does none of this.
-/

namespace RecordStore.Cluster

open RecordStore.Lib RecordStore.Core

/-! ## Counting rows -/

section Counting

variable {K V : Type} [Ord K] [Std.TransOrd K]

/-- What an optional row contributes to a count. -/
def tally (p : V → Bool) (o : Option V) : Nat := if o.any p then 1 else 0

theorem countOf_swap {t t' : Table K V} {old new : Option V} (h : Table.Swap t t' old new) (p : V → Bool) :
    t'.countOf p + tally p old = t.countOf p + tally p new := by
  have hshare : ∀ o : Option V, o.elim 0 (Table.share p fun _ => 1) = tally p o := by
    rintro (_ | v) <;> rfl
  have hsum := h p fun _ => 1
  rwa [← Table.countOf_eq_sumOver, ← Table.countOf_eq_sumOver, hshare, hshare] at hsum

/-- A counter that was right is right afterwards exactly if it was asked for the difference, unless it was clamped. -/
theorem counted_iff {n : UInt64} {before after : Nat} {delta : Int} (hn : n.toNat = before) (h : Unclamped n delta) :
    (clamped n delta).toNat = after ↔ delta = after - before := by
  have hsum := clamped_toNat h
  omega

end Counting

/-! ## The counters and the queue -/

/-- The counters are the numbers of active and of parked tasks, and the queue has one entry for each active task, under
its key. -/
structure ClusterCatalog.Booked (s : ClusterCatalog) : Prop where
  keyed : ∀ (key : Bytes) (t : ReplicaTask), s.tasks[key]? = some t → t.id.bytes = key
  active : (s.readCounter "active_tasks").toNat = s.tasks.countOf (·.state.active)
  parked : (s.readCounter "parked_tasks").toNat = s.tasks.countOf (·.state.isParked)
  queue : ∀ key id : Bytes, s.taskQueue[key]? = some id ↔
    ∃ t, s.tasks[id]? = some t ∧ t.state.active = true ∧ taskQueueKey t = key

/-- No clamping takes effect on the two counters. -/
def ClusterCatalog.Spares (s : ClusterCatalog) (active parked : Int) : Prop :=
  Unclamped (s.readCounter "active_tasks") active ∧ Unclamped (s.readCounter "parked_tasks") parked

/-- The state after the command is booked, and no counter was clamped on the way. -/
def ClusterCatalog.Books (s : ClusterCatalog) (c : ClusterCommand) : Prop :=
  (s.next c).Booked ∧ ∀ active parked, TaskStep s c active parked (s.next c) → s.Spares active parked

/-- The counter is not at `u64::MAX`. -/
def ClusterCatalog.Room (s : ClusterCatalog) (name : String) : Prop := (s.readCounter name).toNat + 1 < 2 ^ 64

instance (s : ClusterCatalog) (name : String) : Decidable (s.Room name) := inferInstanceAs (Decidable (_ < _))

/-- A task that is enqueued is active and its identifier has no active or parked row; a parked task is not completed,
cancelled or failed; a task that is failed into the queue is active; a task that is requeued is active or parked. -/
def ClusterCatalog.Accounts (s : ClusterCatalog) : ClusterCommand → Prop
  | .enqueueTask t => s.duplicate t = none → t.state.active = true ∧ s.Room "active_tasks" ∧
      ∀ u ∈ s.task t.id, u.state.active = false ∧ u.state.isParked = false
  | .completeTask id node fence _ => ∀ t ∈ s.task id, t.Accepts node fence → t.state.isParked = false
  | .failTask id node fence reason attempts time => ∀ t ∈ s.task id, t.Accepts node fence →
      if (t.fail reason attempts time).state.active then t.state.active = true
      else t.state.isParked = false ∧ s.Room "parked_tasks"
  | .requeueTask id _ _ => ∀ t ∈ s.task id, t.state.active = true ∨ t.state.isParked = true ∧ s.Room "active_tasks"
  | .cancelTask id _ _ => ∀ t ∈ s.task id, t.state.isParked = false
  | _ => True

instance (s : ClusterCatalog) (c : ClusterCommand) : Decidable (s.Accounts c) := by
  unfold ClusterCatalog.Accounts
  split <;> infer_instance

section Booked

variable {s s' : ClusterCatalog} {c : ClusterCommand} {id : ReplicaTaskId} {t t' : ReplicaTask} {active parked : Int}

theorem booked_empty : ClusterCatalog.empty.Booked where
  keyed _ _ h := by cases (Table.lookup_empty _).symm.trans h
  active := by decide
  parked := by decide
  queue key id := by
    refine iff_of_false (fun h => ?_) fun ⟨t, h, _⟩ => ?_
    all_goals cases (Table.lookup_empty _).symm.trans h

/-- The two counters after one row was replaced. -/
theorem ClusterCatalog.Booked.counted_iff {old new : Option ReplicaTask} (hs : s.Booked)
    (hswap : Table.Swap s.tasks s'.tasks old new) (hasks : s.Asks s' active parked) (hspares : s.Spares active parked) :
    ((s'.readCounter "active_tasks").toNat = s'.tasks.countOf (·.state.active) ∧
      (s'.readCounter "parked_tasks").toNat = s'.tasks.countOf (·.state.isParked)) ↔
    active = tally (·.state.active) new - tally (·.state.active) old ∧
      parked = tally (·.state.isParked) new - tally (·.state.isParked) old := by
  have hactive := countOf_swap hswap (·.state.active)
  have hparked := countOf_swap hswap (·.state.isParked)
  rw [hasks.1, hasks.2, Cluster.counted_iff hs.active hspares.1, Cluster.counted_iff hs.parked hspares.2]
  omega

/-- The queue without the entry of a task. -/
theorem ClusterCatalog.Booked.dequeued (hs : s.Booked) (ht : s.task id = some t) (key i : Bytes) :
    (s.taskQueue.erase (taskQueueKey t))[key]? = some i ↔
      i ≠ id.bytes ∧ ∃ u, s.tasks[i]? = some u ∧ u.state.active = true ∧ taskQueueKey u = key := by
  have hid := hs.keyed id.bytes t ht
  rw [Table.lookup_erase]
  constructor
  · intro h
    split_ifs at h with hkey
    obtain ⟨u, hu, hactive, rfl⟩ := (hs.queue key i).mp h
    refine ⟨?_, u, hu, hactive, rfl⟩
    rintro rfl
    obtain rfl : t = u := Option.some.inj (ht.symm.trans hu)
    exact hkey rfl
  · rintro ⟨hne, u, hu, hactive, rfl⟩
    rw [if_neg, hs.queue]
    · exact ⟨u, hu, hactive, rfl⟩
    · intro hkey
      exact hne ((hs.keyed i u hu).symm.trans ((congrArg Id.bytes (taskQueueKey_inj hkey)).trans hid))

/-- The queue, if the row under the identifier has no entry. -/
theorem ClusterCatalog.Booked.unqueued (hs : s.Booked) (hidle : ∀ u, s.task id = some u → u.state.active = false)
    (key i : Bytes) : s.taskQueue[key]? = some i ↔
      i ≠ id.bytes ∧ ∃ u, s.tasks[i]? = some u ∧ u.state.active = true ∧ taskQueueKey u = key := by
  rw [hs.queue]
  refine ⟨fun ⟨u, hu, hactive, hkey⟩ => ⟨?_, u, hu, hactive, hkey⟩, And.right⟩
  rintro rfl
  rw [hidle u hu] at hactive
  cases hactive

/-- The rows and the queue after a row was written: `queue` is the one without an entry for it. -/
theorem ClusterCatalog.Booked.put (hs : s.Booked) {queue : Table Bytes Bytes}
    (hqueue : ∀ key i : Bytes, queue[key]? = some i ↔
      i ≠ t.id.bytes ∧ ∃ u, s.tasks[i]? = some u ∧ u.state.active = true ∧ taskQueueKey u = key)
    (htasks : s'.tasks = s.tasks.insert t.id.bytes t)
    (hput : s'.taskQueue = if t.state.active then queue.insert (taskQueueKey t) t.id.bytes else queue)
    (hactive : (s'.readCounter "active_tasks").toNat = s'.tasks.countOf (·.state.active))
    (hparked : (s'.readCounter "parked_tasks").toNat = s'.tasks.countOf (·.state.isParked)) : s'.Booked := by
  have hrow : ∀ i, s'.tasks[i]? = if i = t.id.bytes then some t else s.tasks[i]? := fun i => by
    rw [htasks, Table.lookup_insert]
  refine ⟨fun key u hu => ?_, hactive, hparked, fun key i => ?_⟩
  · rw [hrow] at hu
    split_ifs at hu with hkey
    · rw [← Option.some.inj hu, hkey]
    · exact hs.keyed key u hu
  · have hold : ∀ key i, queue[key]? = some i → key ≠ taskQueueKey t := by
      rintro key i h rfl
      obtain ⟨hne, u, hu, -, hkey⟩ := (hqueue _ i).mp h
      exact hne ((hs.keyed i u hu).symm.trans (congrArg Id.bytes (taskQueueKey_inj hkey)))
    rw [hrow, hput]
    by_cases hi : i = t.id.bytes
    · -- the entries that lead to the row written are the one inserted
      subst hi
      have hnone : queue[key]? ≠ some t.id.bytes := fun h => ((hqueue key _).mp h).1 rfl
      rw [if_pos rfl]
      split_ifs with ha
      · rw [Table.lookup_insert]
        split_ifs with hkey
        · exact iff_of_true rfl ⟨t, rfl, ha, hkey.symm⟩
        · refine iff_of_false hnone ?_
          rintro ⟨u, hu, -, rfl⟩
          exact hkey (congrArg taskQueueKey (Option.some.inj hu).symm)
      · refine iff_of_false hnone ?_
        rintro ⟨u, hu, hu', -⟩
        exact ha (Option.some.inj hu ▸ hu')
    · rw [if_neg hi]
      have hsame : (if t.state.active then queue.insert (taskQueueKey t) t.id.bytes else queue)[key]? = some i ↔
          queue[key]? = some i := by
        split_ifs
        · rw [Table.lookup_insert]
          split_ifs with hkey
          · exact iff_of_false (fun h => hi (Option.some.inj h).symm) fun h => hold key i h hkey
          · exact Iff.rfl
        · exact Iff.rfl
      rw [hsame, hqueue]
      exact and_iff_right hi

theorem fail_isParked {reason : String} {attempts : UInt32} {time : DateTime}
    (h : (t.fail reason attempts time).state.active = false) : (t.fail reason attempts time).state.isParked = true := by
  rcases ReplicaTask.fail_state t reason attempts time with hst | hst
  · rw [hst]
    rfl
  · rw [hst] at h
    cases h

/-- If the counters are asked for the right differences, only `u64::MAX` can be in the way. -/
theorem ClusterCatalog.Booked.spares_iff {old new : Option ReplicaTask} (hs : s.Booked)
    (hswap : Table.Swap s.tasks s'.tasks old new)
    (hactive : active = tally (·.state.active) new - tally (·.state.active) old)
    (hparked : parked = tally (·.state.isParked) new - tally (·.state.isParked) old) :
    s.Spares active parked ↔ (active = 1 → s.Room "active_tasks") ∧ (parked = 1 → s.Room "parked_tasks") := by
  have hbound : ∀ (p : ReplicaTask → Bool) (o : Option ReplicaTask), tally p o ≤ 1 := by
    intro p o
    unfold tally
    split_ifs <;> omega
  have hcounter : ∀ {n : UInt64} {p : ReplicaTask → Bool} {delta : Int}, n.toNat = s.tasks.countOf p →
      delta = tally p new - tally p old → (Unclamped n delta ↔ (delta = 1 → n.toNat + 1 < 2 ^ 64)) := by
    intro n p delta hn hdelta
    have hcount := countOf_swap hswap p
    have hlt := n.toNat_lt
    have hold := hbound p old
    have hnew := hbound p new
    unfold Unclamped
    omega
  exact and_congr (hcounter hs.active hactive) (hcounter hs.parked hparked)

/-- What a change of state takes off or adds to the counters, if there is room. -/
def ClusterCatalog.Balances (s : ClusterCatalog) (old new : Option ReplicaTask) (active parked : Int) : Prop :=
  (active = tally (·.state.active) new - tally (·.state.active) old ∧
      parked = tally (·.state.isParked) new - tally (·.state.isParked) old) ∧
    (active = 1 → s.Room "active_tasks") ∧ (parked = 1 → s.Room "parked_tasks")

/-- A step that replaces one row keeps the books exactly if it asks of the counters what the change of state takes. -/
theorem ClusterCatalog.Booked.balances_iff {old new : Option ReplicaTask} (hs : s.Booked)
    (hswap : Table.Swap s.tasks s'.tasks old new) (hasks : s.Asks s' active parked)
    (hrest : s.Balances old new active parked →
      (s'.readCounter "active_tasks").toNat = s'.tasks.countOf (·.state.active) →
      (s'.readCounter "parked_tasks").toNat = s'.tasks.countOf (·.state.isParked) → s'.Booked) :
    (s'.Booked ∧ s.Spares active parked) ↔ s.Balances old new active parked := by
  constructor
  · rintro ⟨hs', hspares⟩
    have hdeltas := (hs.counted_iff hswap hasks hspares).mp ⟨hs'.active, hs'.parked⟩
    exact ⟨hdeltas, (hs.spares_iff hswap hdeltas.1 hdeltas.2).mp hspares⟩
  · intro hb
    have hspares := (hs.spares_iff hswap hb.1.1 hb.1.2).mpr hb.2
    obtain ⟨hactive, hparked⟩ := (hs.counted_iff hswap hasks hspares).mpr hb.1
    exact ⟨hrest hb hactive hparked, hspares⟩

theorem RewritesTask.balances_iff (h : RewritesTask s id t t' s') (hs : s.Booked) (hid : t'.id = t.id)
    (hasks : s.Asks s' active parked) :
    (s'.Booked ∧ s.Spares active parked) ↔ s.Balances (some t) (some t') active parked := by
  have hrow : id.bytes = t'.id.bytes := (hs.keyed id.bytes t h.found).symm.trans (congrArg Id.bytes hid.symm)
  have hswap : Table.Swap s.tasks s'.tasks (some t) (some t') := by
    rw [h.tasks, ← show s.tasks[id.bytes]? = some t from h.found]
    exact Table.swap_insert s.tasks id.bytes t'
  refine hs.balances_iff hswap hasks fun _ hactive hparked => ?_
  have hqueue := hs.dequeued h.found
  rw [hrow] at hqueue
  exact hs.put hqueue (hrow ▸ h.tasks) h.queue hactive hparked

theorem tally_active (t : ReplicaTask) : tally (·.state.active) (some t) = if t.state.active then 1 else 0 := rfl

theorem tally_parked (t : ReplicaTask) : tally (·.state.isParked) (some t) = if t.state.isParked then 1 else 0 := rfl

theorem enqueue_balances_iff (hnew : s.duplicate t = none) :
    s.Balances (s.task t.id) (some t) 1 0 ↔ s.Accounts (.enqueueTask t) := by
  have hexcl : t.state.active = true → t.state.isParked = false := ReplicaTaskState.isParked_of_active
  simp only [ClusterCatalog.Accounts, hnew, true_imp_iff]
  unfold ClusterCatalog.Balances
  rw [tally_active, tally_parked]
  cases s.task t.id with
  | none =>
    show (_ = _ - ((0 : Nat) : Int) ∧ _ = _ - ((0 : Nat) : Int)) ∧ _ ↔ _
    cases ha : t.state.active <;> cases hk : t.state.isParked <;> simp_all
  | some u =>
    rw [tally_active, tally_parked]
    cases ha : t.state.active <;> cases hk : t.state.isParked <;> cases hu : u.state.active <;>
      cases hp : u.state.isParked <;> simp_all

/-- The counters and the state a task leaves, one move at a time. -/
theorem TaskMove.balances_iff (h : TaskMove c id t t' active parked) (ht : s.task id = some t) :
    s.Balances (some t) (some t') active parked ↔ s.Accounts c := by
  have hexcl : t.state.active = true → t.state.isParked = false := ReplicaTaskState.isParked_of_active
  unfold ClusterCatalog.Balances
  rw [tally_active, tally_active, tally_parked, tally_parked]
  cases h with
  | claim hqueued =>
    refine iff_of_true ?_ trivial
    rw [hqueued]
    exact ⟨⟨rfl, rfl⟩, nofun, nofun⟩
  | complete haccepts =>
    simp only [ClusterCatalog.Accounts, ht, Option.mem_some_iff, forall_eq', haccepts, true_imp_iff]
    show (_ = ((0 : Nat) : Int) - _ ∧ _ = ((0 : Nat) : Int) - _) ∧ _ ↔ _
    unfold ReplicaTask.release
    cases t.state.active <;> cases t.state.isParked <;> simp
  | retry haccepts hstays =>
    simp only [ClusterCatalog.Accounts, ht, Option.mem_some_iff, forall_eq', haccepts, true_imp_iff, if_pos hstays,
      ReplicaTaskState.isParked_of_active hstays]
    cases ha : t.state.active <;> cases hk : t.state.isParked <;> simp_all
  | park haccepts hstops =>
    simp only [ClusterCatalog.Accounts, ht, Option.mem_some_iff, forall_eq', haccepts, true_imp_iff, hstops,
      fail_isParked hstops]
    unfold ReplicaTask.release
    cases ha : t.state.active <;> cases hk : t.state.isParked <;> simp_all
  | requeue =>
    simp only [ClusterCatalog.Accounts, ht, Option.mem_some_iff, forall_eq']
    show (_ = ((1 : Nat) : Int) - _ ∧ _ = ((0 : Nat) : Int) - _) ∧ _ ↔ _
    cases ha : t.state.active <;> cases hk : t.state.isParked <;> simp_all
  | cancel =>
    simp only [ClusterCatalog.Accounts, ht, Option.mem_some_iff, forall_eq']
    show (_ = ((0 : Nat) : Int) - _ ∧ _ = ((0 : Nat) : Int) - _) ∧ _ ↔ _
    unfold ReplicaTask.release
    cases t.state.active <;> cases t.state.isParked <;> simp

/-- A step leaves the books in order exactly if it accounts for the state its task leaves. -/
theorem TaskStep.books_iff (h : TaskStep s c active parked s') (hs : s.Booked) :
    (s'.Booked ∧ s.Spares active parked) ↔ s.Accounts c := by
  cases h with
  | idle h =>
    refine iff_of_true ⟨hs, unclamped_zero _, unclamped_zero _⟩ ?_
    cases c with
    | enqueueTask t =>
      intro hnone
      rw [ClusterCatalog.Ignores, hnone] at h
      cases h
    | completeTask id node fence time => exact fun t ht hok => absurd hok (h t ht)
    | failTask id node fence reason attempts time => exact fun t ht hok => absurd hok (h t ht)
    | requeueTask id reason time => exact fun t ht => by cases (show s.task id = none from h).symm.trans ht
    | cancelTask id reason time => exact fun t ht => by cases (show s.task id = none from h).symm.trans ht
    | _ => trivial
  | @enqueue t s' hnew htasks hqueue hindex hasks =>
    have hswap : Table.Swap s.tasks s'.tasks (s.task t.id) (some t) := htasks ▸ Table.swap_insert s.tasks t.id.bytes t
    have haccounts := enqueue_balances_iff hnew
    rw [hs.balances_iff hswap hasks, haccounts]
    intro hb hactive hparked
    have hidle := (haccounts.mp hb hnew).2.2
    exact hs.put (hs.unqueued fun u hu => (hidle u hu).1) htasks hqueue hactive hparked
  | @rewrite c id t t' active parked s' hmove h hasks =>
    rw [h.balances_iff hs hmove.same.1 hasks, hmove.balances_iff h.found]
  | @purge id t s' ht hdone htasks hqueue hindex hasks =>
    have hswap : Table.Swap s.tasks s'.tasks (some t) none := by
      rw [htasks, ← show s.tasks[id.bytes]? = some t from ht]
      exact Table.swap_erase s.tasks id.bytes
    rw [hs.balances_iff hswap hasks]
    · refine iff_of_true ⟨⟨?_, ?_⟩, nofun, ?_⟩ trivial
      · rw [tally_active, hdone]
        rfl
      · rw [tally_parked]
        split_ifs <;> rfl
      · intro h
        split_ifs at h
        all_goals cases h
    · intro _ ha hp
      refine ⟨fun key u hu => ?_, ha, hp, fun key i => ?_⟩
      · rw [htasks] at hu
        exact hs.keyed key u (Table.of_lookup_erase hu).2
      · rw [hqueue, hs.unqueued (fun u hu => Option.some.inj (ht.symm.trans hu) ▸ hdone), htasks, Table.lookup_erase]
        split_ifs with hi
        · exact iff_of_false (fun h => h.1 hi) fun ⟨_, h, _⟩ => by cases h
        · exact and_iff_right hi

/-- From a state that is booked, task commands keep it so and clamp no counter exactly as long as each of them accounts
for the state its task leaves. -/
theorem books_run_iff (commands : List ClusterCommand) (hs : s.Booked) (htasks : ∀ c ∈ commands, c.taskId ≠ none) :
    Meets (fun s c => some (ClusterCatalog.next s c)) ClusterCatalog.Books s commands ↔
      Meets (fun s c => some (ClusterCatalog.next s c)) ClusterCatalog.Accounts s commands := by
  refine Meets.iff_of (fun s c hs hc => ?_) (fun s c s' _ hb hnext => ?_) hs htasks
  · obtain ⟨active, parked, hstep⟩ := taskStep_next s hc
    refine ⟨fun hb => (hstep.books_iff hs).mp ⟨hb.1, hb.2 _ _ hstep⟩, fun ha => ?_⟩
    exact ⟨((hstep.books_iff hs).mpr ha).1, fun _ _ h => ((h.books_iff hs).mpr ha).2⟩
  · exact Option.some.inj hnext ▸ hb.1

end Booked

/-! ## Tasks for the concrete runs -/

namespace Sample

/-- A repair of the sample payload, as it is enqueued. -/
def repair (id : Nat) : ReplicaTask :=
  ⟨.ofNat id, .ofNat 7, .repair, .normal, none, none, some (.ofNat 2), none, none, 1, 0, .queued, 0, none,
    .epoch, .epoch⟩

/-- The repair is claimed and completed. -/
def repaired : List ClusterCommand :=
  [.enqueueTask (repair 1), .claimTask (.ofNat 1) (.ofNat 2) 60 .epoch,
    .completeTask (.ofNat 1) (some (.ofNat 2)) 1 .epoch]

/-- The repair is parked after one failure and then cancelled. -/
def abandoned : List ClusterCommand :=
  [.enqueueTask (repair 1), .failTask (.ofNat 1) none 0 "no source" 1 .epoch, .cancelTask (.ofNat 1) "gone" .epoch]

/-- One repair is parked, and another one is completed just before the reclaim of its lease. -/
def reclaimed : List ClusterCommand :=
  [.enqueueTask { repair 2 with objectId := .ofNat 8 }, .claimTask (.ofNat 2) (.ofNat 2) 60 .epoch,
    .failTask (.ofNat 2) (some (.ofNat 2)) 1 "no source" 1 .epoch] ++ repaired ++
    [.requeueTask (.ofNat 1) (some "execution lease expired") (.ofSeconds 61)]

/-- The repair is parked, another one is enqueued for the payload, and the first is requeued. -/
def revived : List ClusterCommand :=
  [.enqueueTask (repair 1), .failTask (.ofNat 1) none 0 "no source" 1 .epoch, .enqueueTask (repair 2),
    .requeueTask (.ofNat 1) none .epoch]

end Sample

theorem books_run_repaired : ClusterCatalog.empty.Booked ∧
    Meets (fun s c => some (ClusterCatalog.next s c)) ClusterCatalog.Books .empty Sample.repaired :=
  ⟨booked_empty, (books_run_iff Sample.repaired booked_empty (by decide +kernel)).mpr (by decide +kernel)⟩

/-- A parked task that is cancelled stays on the counter of parked ones, and a completed task that is requeued takes
another one off it. -/
theorem books_abandoned : (∀ c ∈ Sample.abandoned ++ Sample.reclaimed, c.taskId ≠ none) ∧
    ((Sample.abandoned.foldl ClusterCatalog.next .empty).readCounter "parked_tasks").toNat = 1 ∧
    (Sample.abandoned.foldl ClusterCatalog.next .empty).tasks.countOf (·.state.isParked) = 0 ∧
    ((Sample.reclaimed.foldl ClusterCatalog.next .empty).readCounter "parked_tasks").toNat = 0 ∧
    (Sample.reclaimed.foldl ClusterCatalog.next .empty).tasks.countOf (·.state.isParked) = 1 := by
  decide +kernel

/-! ## The index by payload -/

/-- A payload has at most one active task of a kind, and the index leads to it. -/
structure ClusterCatalog.Indexed (s : ClusterCatalog) : Prop where
  keyed : ∀ (key : Bytes) (t : ReplicaTask), s.tasks[key]? = some t → t.id.bytes = key
  single : ∀ (key key' : Bytes) (t t' : ReplicaTask), s.tasks[key]? = some t → s.tasks[key']? = some t' →
    t.state.active = true → t'.state.active = true → t.objectId = t'.objectId → t.kind = t'.kind → t = t'
  index : ∀ (key : Bytes) (t : ReplicaTask), s.tasks[key]? = some t → t.state.active = true →
    s.taskByObject[taskObjectKey t.objectId t.kind]? = some t.id.bytes

/-- An inactive task becomes active only if the index still leads to it. -/
def ClusterCatalog.Reindexes (s : ClusterCatalog) : ClusterCommand → Prop
  | .failTask id node fence reason attempts time => ∀ t ∈ s.task id, t.Accepts node fence →
      (t.fail reason attempts time).state.active = true → t.state.active = false →
      s.taskByObject[taskObjectKey t.objectId t.kind]? = some id.bytes
  | .requeueTask id _ _ => ∀ t ∈ s.task id, t.state.active = false →
      s.taskByObject[taskObjectKey t.objectId t.kind]? = some id.bytes
  | _ => True

instance (s : ClusterCatalog) (c : ClusterCommand) : Decidable (s.Reindexes c) := by
  unfold ClusterCatalog.Reindexes
  split <;> infer_instance

section Indexed

variable {s s' : ClusterCatalog} {c : ClusterCommand} {id : ReplicaTaskId} {t t' : ReplicaTask} {active parked : Int}

/-- That there is only one follows from the index. -/
theorem indexed_of (hkeyed : ∀ (key : Bytes) (t : ReplicaTask), s.tasks[key]? = some t → t.id.bytes = key)
    (hindex : ∀ (key : Bytes) (t : ReplicaTask), s.tasks[key]? = some t → t.state.active = true →
      s.taskByObject[taskObjectKey t.objectId t.kind]? = some t.id.bytes) : s.Indexed := by
  refine ⟨hkeyed, fun key key' t t' ht ht' ha ha' hobject hkind => ?_, hindex⟩
  have h := hindex key t ht ha
  rw [hobject, hkind, hindex key' t' ht' ha'] at h
  have hsame : key = key' := by rw [← hkeyed key t ht, ← hkeyed key' t' ht', Option.some.inj h]
  rw [hsame, ht'] at ht
  exact (Option.some.inj ht).symm

theorem indexed_empty : ClusterCatalog.empty.Indexed :=
  indexed_of (fun _ _ h => by cases (Table.lookup_empty _).symm.trans h)
    fun _ _ h => by cases (Table.lookup_empty _).symm.trans h

/-- A row is written.  The index may have lost its entry if the row is not active. -/
theorem ClusterCatalog.Indexed.put (hs : s.Indexed) (htasks : s'.tasks = s.tasks.insert t.id.bytes t)
    (hown : t.state.active = true → s'.taskByObject[taskObjectKey t.objectId t.kind]? = some t.id.bytes)
    (hothers : ∀ (key : Bytes) (u : ReplicaTask), s.tasks[key]? = some u → u.id ≠ t.id → u.state.active = true →
      s'.taskByObject[taskObjectKey u.objectId u.kind]? =
        s.taskByObject[taskObjectKey u.objectId u.kind]?) : s'.Indexed := by
  have hrow : ∀ key u, s'.tasks[key]? = some u → (key = t.id.bytes ∧ u = t) ∨
    (u.id ≠ t.id ∧ s.tasks[key]? = some u) := by
    intro key u hu
    rw [htasks] at hu
    exact (Table.of_lookup_insert hu).imp (And.imp_right Eq.symm) fun h =>
      ⟨fun e => h.1 ((hs.keyed key u h.2).symm.trans (congrArg Id.bytes e)), h.2⟩
  refine indexed_of (fun key u hu => ?_) fun key u hu ha => ?_
  · rcases hrow key u hu with ⟨rfl, rfl⟩ | ⟨-, hu⟩
    · rfl
    · exact hs.keyed key u hu
  · rcases hrow key u hu with ⟨rfl, rfl⟩ | ⟨hne, hu⟩
    · exact hown ha
    · rw [hothers key u hu hne ha]
      exact hs.index key u hu ha

/-- The index entry of a row that is no longer active is not that of another active row. -/
theorem ClusterCatalog.Indexed.removed (hs : s.Indexed) {key : Bytes} {u : ReplicaTask} (hu : s.tasks[key]? = some u)
    (hne : u.id ≠ t.id) (ha : u.state.active = true) :
    (s.removeTaskObjectEntry t).taskByObject[taskObjectKey u.objectId u.kind]? =
      s.taskByObject[taskObjectKey u.objectId u.kind]? := by
  rw [ClusterCatalog.removeTaskObjectEntry_eq]
  dsimp only
  split_ifs with hentry
  · rw [Table.lookup_erase, if_neg]
    intro hpair
    have h := hs.index key u hu ha
    rw [hpair, hentry] at h
    exact hne (Id.bytes_inj.mp (Option.some.inj h)).symm
  · rfl

/-- A rewritten row that is active needs the index entry it had. -/
theorem RewritesTask.indexed_iff (h : RewritesTask s id t t' s') (hs : s.Indexed)
    (hmove : TaskMove c id t t' active parked) : s'.Indexed ↔ (t'.state.active = true → t.state.active = false →
      s.taskByObject[taskObjectKey t.objectId t.kind]? = some id.bytes) := by
  obtain ⟨hid, hobject, hkind, -⟩ := hmove.same
  have hrow : id.bytes = t'.id.bytes := (hs.keyed id.bytes t h.found).symm.trans (congrArg Id.bytes hid.symm)
  have hput : s'.tasks[id.bytes]? = some t' := by rw [h.tasks, Table.lookup_insert_self]
  constructor
  · intro hs' ha _
    have hentry := hs'.index id.bytes t' hput ha
    rwa [h.index, if_pos ha, hobject, hkind, ← hrow] at hentry
  · intro hentry
    refine hs.put (hrow ▸ h.tasks) (fun ha => ?_) fun key u hu hne ha => ?_
    · rw [h.index, if_pos ha, hobject, hkind, ← hrow]
      cases hold : t.state.active with
      | true => exact (hs.index id.bytes t h.found hold).trans (congrArg some (hs.keyed id.bytes t h.found))
      | false => exact hentry ha hold
    · rw [h.index]
      split_ifs
      · rfl
      · exact hs.removed hu hne ha

theorem TaskMove.reindexes_iff (h : TaskMove c id t t' active parked) (ht : s.task id = some t) :
    (t'.state.active = true → t.state.active = false →
      s.taskByObject[taskObjectKey t.objectId t.kind]? = some id.bytes) ↔
      s.Reindexes c := by
  cases h with
  | claim hqueued =>
    rw [hqueued]
    exact iff_of_true (fun _ h => by cases h) trivial
  | complete haccepts => exact iff_of_true (fun h => by cases h) trivial
  | retry haccepts _ | park haccepts _ =>
    simp only [ClusterCatalog.Reindexes, ht, Option.mem_some_iff, forall_eq', haccepts, true_imp_iff]
  | requeue =>
    simp only [ClusterCatalog.Reindexes, ht, Option.mem_some_iff, forall_eq']
    exact imp_iff_right rfl
  | cancel => exact iff_of_true (fun h => by cases h) trivial

/-- A step keeps the index exactly if a task that it makes active again is still in it. -/
theorem TaskStep.indexed_iff (h : TaskStep s c active parked s') (hs : s.Indexed) : s'.Indexed ↔ s.Reindexes c := by
  cases h with
  | idle h =>
    refine iff_of_true hs ?_
    cases c with
    | failTask id node fence reason attempts time => exact fun t ht hok => absurd hok (h t ht)
    | requeueTask id reason time => exact fun t ht => by cases (show s.task id = none from h).symm.trans ht
    | _ => trivial
  | @enqueue t s' hnew htasks hqueue hindex hasks =>
    refine iff_of_true (hs.put htasks (fun _ => ?_) fun key u hu hne ha => ?_) trivial
    · rw [hindex, Table.lookup_insert_self]
    · rw [hindex, Table.lookup_insert, if_neg]
      -- an active task with this entry would have been found
      intro hpair
      have hentry := hs.index key u hu ha
      rw [hpair] at hentry
      rw [ClusterCatalog.duplicate, hentry, Option.bind_some, hs.keyed key u hu, hu, Option.filter_some,
        if_pos ha] at hnew
      cases hnew
  | @rewrite c id t t' active parked s' hmove h hasks => rw [h.indexed_iff hs hmove, hmove.reindexes_iff h.found]
  | @purge id t s' ht hdone htasks hqueue hindex hasks =>
    have hrow : ∀ (key : Bytes) (u : ReplicaTask), s'.tasks[key]? = some u → s.tasks[key]? = some u := by
      intro key u hu
      rw [htasks] at hu
      exact (Table.of_lookup_erase hu).2
    refine iff_of_true (indexed_of (fun key u hu => hs.keyed key u (hrow key u hu)) fun key u hu ha => ?_) trivial
    rw [hindex]
    exact hs.index key u (hrow key u hu) ha

/-- From a state that is indexed, task commands keep it so exactly as long as no task becomes active again that the
index has lost. -/
theorem indexed_run_iff (commands : List ClusterCommand) (hs : s.Indexed) (htasks : ∀ c ∈ commands, c.taskId ≠ none) :
    Meets (fun s c => some (ClusterCatalog.next s c)) (fun s c => (ClusterCatalog.next s c).Indexed) s commands ↔
      Meets (fun s c => some (ClusterCatalog.next s c)) ClusterCatalog.Reindexes s commands := by
  refine Meets.iff_of (fun s c hs hc => ?_) (fun s c s' _ hb hnext => ?_) hs htasks
  · obtain ⟨active, parked, hstep⟩ := taskStep_next s hc
    exact hstep.indexed_iff hs
  · exact Option.some.inj hnext ▸ hb

end Indexed

theorem indexed_run_abandoned : ClusterCatalog.empty.Indexed ∧
    Meets (fun s c => some (ClusterCatalog.next s c))
      (fun s c => (ClusterCatalog.next s c).Indexed) .empty Sample.abandoned :=
  ⟨indexed_empty, (indexed_run_iff Sample.abandoned indexed_empty (by decide +kernel)).mpr (by decide +kernel)⟩

/-- A parked task that is requeued after its successor was enqueued: both are queued. -/
theorem indexed_revived : (∀ c ∈ Sample.revived, c.taskId ≠ none) ∧
    ((Sample.revived.foldl ClusterCatalog.next .empty).tasks.rows.map fun t => (t.id, t.objectId, t.kind, t.state)) =
      [(.ofNat 1, .ofNat 7, .repair, .queued), (.ofNat 2, .ofNat 7, .repair, .queued)] := by
  decide +kernel

end RecordStore.Cluster

import RecordStore.Cluster.History
import RecordStore.Cluster.Snapshot
import RecordStore.Consensus.ExactlyOnce

/-!
# Consensus.Members — several members over one log

Each member applies the log to its own database, or takes a snapshot of another member's.  Local reads and
restarts leave the database alone.  One local call does not: `refresh_durability_counters` recounts the two
summary counters of the cluster tables and commits them without the log.  The leader calls it at the end of
every coordinator pass, and a member that serves a read calls it when it meets damage.
-/

namespace RecordStore.Cluster

open RecordStore.Lib RecordStore.Core Tx

/-! ## The recount -/

namespace ClusterCatalog

/-- `refresh_durability_counters`: the recount in a transaction of its own. -/
def refreshDurabilityCounters (s : ClusterCatalog) : ClusterCatalog := (commit recountDurability s).2

/-- What a recount gives: the payloads that are under-replicated, and those that are unavailable. -/
def summary (s : ClusterCatalog) : Option (UInt64 × UInt64) :=
  s.identity.bind fun identity => s.config.map fun config =>
    let durabilities := s.placements.rows.map fun p =>
      p.durability (ClusterTopology.atEpoch identity.clusterId config s.nodes.rows 0)
    (countRows (durabilities.filter Durability.underReplicated),
      countRows (durabilities.filter Durability.isUnavailable))

/-- The stored counters are those of a recount. -/
def Settled (s : ClusterCatalog) : Prop :=
  s.summary.all fun (under, unavailable) =>
    s.counters["under_replicated"]? == some under && s.counters["unavailable_payloads"]? == some unavailable

instance : DecidablePred Settled := fun _ => inferInstanceAs (Decidable (_ = true))

variable {s : ClusterCatalog}

theorem refresh_eq (s : ClusterCatalog) : s.refreshDurabilityCounters = s.summary.elim s fun counts =>
    (s.setCounter "under_replicated" counts.1).setCounter "unavailable_payloads" counts.2 := by
  obtain ⟨placements, nodeReplicas, tombstones, tasks, taskQueue, taskByObject, counters, identity, config,
    nodes, nodeByMember, operations, joinTokens, nodeCredentials, storagePolicies⟩ := s
  rcases identity with _ | identity
  · rfl
  · cases config <;> rfl

/-- A recount changes nothing if and only if the counters are settled. -/
theorem refresh_eq_self_iff : s.refreshDurabilityCounters = s ↔ s.Settled := by
  rw [refresh_eq, Settled]
  rcases s.summary with _ | ⟨under, unavailable⟩
  · simp
  simp only [Option.elim_some, Option.all_some, Bool.and_eq_true, beq_iff_eq]
  constructor
  · intro h
    rw [← h]
    refine ⟨?_, Table.lookup_insert_self _ _ _⟩
    show (((s.counters.insert _ under).insert _ unavailable))["under_replicated"]? = some under
    rw [Table.lookup_insert, if_neg (by decide), Table.lookup_insert_self]
  · rintro ⟨hunder, hunavailable⟩
    have htable : (s.counters.insert "under_replicated" under).insert "unavailable_payloads" unavailable =
      s.counters := by
      apply Std.ExtTreeMap.ext_getElem?
      intro name
      rw [Table.lookup_insert, Table.lookup_insert]
      split_ifs with h1 h2
      · rw [h1, hunavailable]
      · rw [h2, hunder]
      · rfl
    simp only [setCounter]
    rw [htable]

end ClusterCatalog

end RecordStore.Cluster

namespace RecordStore.Consensus

open RecordStore.Lib RecordStore.Core RecordStore.Metadata RecordStore.Cluster Tx

variable {μ : Type}

/-! ## Snapshots -/

/-- The rows of the object catalog are copied as they are stored, like those of the cluster tables. -/
structure SnapshotDocument (μ : Type) where
  lastApplied : Option LogId
  lastMembership : StoredMembership μ
  metadata : Catalog
  cluster : List CatalogEntry

def buildSnapshot (s : Replicated ClusterCatalog μ) : SnapshotDocument μ :=
  ⟨s.lastApplied, s.lastMembership, s.data.catalog, Cluster.exportTx s.data.cluster⟩

def installSnapshot (d : SnapshotDocument μ) (s : Replicated ClusterCatalog μ) : Replicated ClusterCatalog μ where
  data := ⟨d.metadata, Cluster.importTx d.cluster⟩
  -- a snapshot of nothing leaves the position as it is
  lastApplied := d.lastApplied.or s.lastApplied
  lastMembership := d.lastMembership

theorem install_build {s s' : Replicated ClusterCatalog μ} (h : s.lastApplied.isSome = true) :
    installSnapshot (buildSnapshot s) s' = s := by
  obtain ⟨id, hid⟩ := Option.isSome_iff_exists.mp h
  simp only [installSnapshot, buildSnapshot, Cluster.importTx_exportTx, hid, Option.some_or]
  rw [← hid]

/-- A member that stops at an entry keeps its database. -/
theorem applyEntry_error {env : Env} {e : Entry ClusterCommand μ} {s s' : Replicated ClusterCatalog μ}
    {failure : DurableFailure} (h : applyEntry env clusterLogic e s = (.error failure, s')) : s' = s := by
  unfold applyEntry at h
  split at h
  · cases h
  · cases h
  · split at h
    · cases h
    · cases h
    · cases h
      rfl

/-! ## The members -/

/-- The databases of the members, and every snapshot that was built. -/
structure Members (μ : Type) where
  databases : UInt64 → Replicated ClusterCatalog μ
  snapshots : List (SnapshotDocument μ)

inductive MemberEvent where
  -- the next entry of the log
  | apply (member : UInt64)
  | buildSnapshot (member : UInt64)
  | installSnapshot (member : UInt64) (snapshot : Nat)
  -- the end of a coordinator pass, or a read that met damage
  | refresh (member : UInt64)
  -- a transaction that reads and is committed
  | read (member : UInt64)
  | restart (member : UInt64)
  deriving DecidableEq

namespace Members

variable (env : Env) (log : List (Entry ClusterCommand μ)) (init : Replicated ClusterCatalog μ)

def start : Members μ := ⟨fun _ => init, []⟩

def set (s : Members μ) (member : UInt64) (database : Replicated ClusterCatalog μ) : Members μ :=
  { s with databases := Function.update s.databases member database }

/-- The snapshot is ahead of the member: consensus discards others. -/
def ahead (d : SnapshotDocument μ) (s : Replicated ClusterCatalog μ) : Bool :=
  d.lastApplied.any fun to_ => s.lastApplied.all fun at_ => at_.index < to_.index

def step (s : Members μ) : MemberEvent → Option (Members μ)
  | .apply member =>
    match Replay.after Entry.number log ((s.databases member).lastApplied.map (·.index.toNat)) with
    | [] => none
    | e :: _ => some (s.set member (applyEntry env clusterLogic e (s.databases member)).2)
  | .buildSnapshot member => some { s with snapshots := s.snapshots ++ [buildSnapshot (s.databases member)] }
  | .installSnapshot member k =>
    s.snapshots[k]?.bind fun d =>
      if ahead d (s.databases member) then
        some (s.set member (Consensus.installSnapshot d (s.databases member))) else none
  | .refresh member =>
    let db := s.databases member
    some (s.set member { db with data := { db.data with cluster := db.data.cluster.refreshDurabilityCounters } })
  | .read _ | .restart _ => some s

/-- A recount finds the counters as it would leave them. -/
def Idle (s : Members μ) (e : MemberEvent) : Prop := ∀ member, e = .refresh member →
    (s.databases member).data.cluster.Settled

instance (s : Members μ) : ∀ e : MemberEvent, Decidable (s.Idle e)
  | .refresh member => decidable_of_iff (s.databases member).data.cluster.Settled
      ⟨fun h m hm => by cases hm; exact h, fun h => h member rfl⟩
  | .apply _ | .buildSnapshot _ | .installSnapshot _ _ | .read _ | .restart _ => isTrue nofun

/-- Members at the same position have the same database. -/
def Agree (s : Members μ) : Prop :=
  ∀ m m', (s.databases m).lastApplied = (s.databases m').lastApplied → s.databases m = s.databases m'

/-! ## Every database is what its position means -/

/-- The database of a member, and the content of every snapshot, is what a prefix of the log means. -/
structure Faithful (s : Members μ) : Prop where
  databases : ∀ m, ∃ n, Replay.Applied (entryEffect env clusterLogic) init log n (s.databases m)
  snapshots : ∀ d ∈ s.snapshots, ∃ n db, Replay.Applied (entryEffect env clusterLogic) init log n db ∧
    d = buildSnapshot db

section Faithful

variable {env log init} {s s' : Members μ}

theorem Faithful.start : Faithful env log init (start init) :=
  ⟨fun _ => ⟨0, .zero⟩, fun _ hd => absurd hd List.not_mem_nil⟩

theorem Faithful.set (h : Faithful env log init s) {member : UInt64} {db : Replicated ClusterCatalog μ}
    (hdb : ∃ n, Replay.Applied (entryEffect env clusterLogic) init log n db) :
    Faithful env log init (s.set member db) where
  databases m := by
    by_cases hm : m = member
    · subst hm
      simpa [Members.set] using hdb
    · simpa [Members.set, hm] using h.databases m
  snapshots := h.snapshots

section Position

variable (hlog : log.Pairwise fun e e' => e.number < e'.number) (hinit : init.lastApplied = none)
  {db db' : Replicated ClusterCatalog μ} {n n' : Nat} (h : Replay.Applied (entryEffect env clusterLogic) init log n db)
include hlog hinit h

/-- What is left to apply is what is behind the prefix that was applied. -/
theorem unapplied_eq_drop : Replay.after Entry.number log (db.lastApplied.map (·.index.toNat)) = log.drop n := by
  have hempty : ∀ e ∈ log, ∀ id ∈ init.lastApplied, id.index.toNat < e.number := by
    intro e _ id hid
    rw [hinit] at hid
    cases hid
  exact (start_queue hlog hempty h : (Member.start log db : Member _ _ ClusterOutcome _).queue = _)

theorem next_entry {e : Entry ClusterCommand μ} {rest : List (Entry ClusterCommand μ)}
    (hnext : Replay.after Entry.number log (db.lastApplied.map (·.index.toNat)) = e :: rest) : log[n]? = some e := by
  rw [unapplied_eq_drop hlog hinit h] at hnext
  rw [← List.head?_drop, hnext]
  rfl

/-- The position of a database tells the prefix that it has applied. -/
theorem position_inj (h' : Replay.Applied (entryEffect env clusterLogic) init log n' db')
    (heq : db.lastApplied = db'.lastApplied) : n = n' := by
  have hdrop : log.drop n = log.drop n' := by
    rw [← unapplied_eq_drop hlog hinit h, heq, unapplied_eq_drop hlog hinit h']
  have hlength := congrArg List.length hdrop
  rw [List.length_drop, List.length_drop] at hlength
  have := h.le
  have := h'.le
  omega

end Position

theorem faithful_step (hlog : log.Pairwise fun e e' => e.number < e'.number) (hinit : init.lastApplied = none)
    {e : MemberEvent} (h : Faithful env log init s) (hidle : Idle s e) (hs : step env log s e = some s') :
    Faithful env log init s' := by
  cases e with
  | apply member =>
    simp only [step] at hs
    obtain ⟨n, hn⟩ := h.databases member
    split at hs
    · cases hs
    · rename_i e rest hnext
      cases hs
      refine h.set ?_
      rcases happly : applyEntry env clusterLogic e (s.databases member) with ⟨_ | response, db⟩
      · rw [show db = s.databases member from applyEntry_error happly]
        exact ⟨n, hn⟩
      · exact ⟨n + 1, hn.next (next_entry hlog hinit hn hnext) (applyEntry_effect happly)⟩
  | buildSnapshot member =>
    cases hs
    refine ⟨h.databases, fun d hd => ?_⟩
    rcases List.mem_append.mp hd with hd | hd
    · exact h.snapshots d hd
    · obtain ⟨n, hn⟩ := h.databases member
      exact ⟨n, _, hn, List.mem_singleton.mp hd⟩
  | installSnapshot member k =>
    obtain ⟨d, hd, hs⟩ := Option.bind_eq_some_iff.mp hs
    obtain ⟨n, db, hn, rfl⟩ := h.snapshots d (List.mem_of_getElem? hd)
    split_ifs at hs with hahead
    cases hs
    have hsome : db.lastApplied.isSome = true := by
      obtain ⟨id, hid, -⟩ := (Option.any_eq_true _ _).mp hahead
      exact Option.isSome_iff_exists.mpr ⟨id, hid⟩
    rw [install_build hsome]
    exact h.set ⟨n, hn⟩
  | refresh member =>
    cases hs
    rw [ClusterCatalog.refresh_eq_self_iff.mpr (hidle member rfl)]
    exact h.set (h.databases member)
  | read member => cases hs; exact h
  | restart member => cases hs; exact h

/-- Faithful members agree. -/
theorem Faithful.agree (hlog : log.Pairwise fun e e' => e.number < e'.number) (hinit : init.lastApplied = none)
    (h : Faithful env log init s) : s.Agree := by
  intro m m' heq
  obtain ⟨n, hn⟩ := h.databases m
  obtain ⟨n', hn'⟩ := h.databases m'
  obtain rfl := position_inj hlog hinit hn hn' heq
  exact Option.some.inj (hn.eq.symm.trans hn'.eq)

end Faithful

/-- In every run whose recounts find the counters settled, members at one position have one database; and
from every state of such a run a recount keeps two members at one position alike exactly if it finds the
counters settled. -/
theorem members_agree_iff_settled (env : Env) (log : List (Entry ClusterCommand μ)) (init : Replicated ClusterCatalog μ)
    (hlog : log.Pairwise fun e e' => e.number < e'.number) (hinit : init.lastApplied = none) {events : List MemberEvent}
    {s : Members μ} (hidle : Meets (step env log) Idle (start init) events)
    (hrun : run (step env log) (start init) events = some s) :
    s.Agree ∧ ∀ m m', m ≠ m' → (s.databases m).lastApplied = (s.databases m').lastApplied →
      ∀ s', step env log s (.refresh m) = some s' →
        (s'.databases m = s'.databases m' ↔ (s.databases m).data.cluster.Settled) := by
  have hfaithful : Faithful env log init s :=
    run_invariant (fun s e s' h hok hs => faithful_step hlog hinit h hok hs) events .start hidle hrun
  have hagree := hfaithful.agree hlog hinit
  refine ⟨hagree, ?_⟩
  rintro m m' hne heq s' hs
  cases hs
  have hsame := hagree m m' heq
  rw [← ClusterCatalog.refresh_eq_self_iff]
  simp only [Members.set, Function.update_self, Function.update_of_ne hne.symm, ← hsame]
  constructor
  · intro h
    exact congrArg (·.data.cluster) h
  · intro h
    rw [h]

namespace Sample

def release : Env := ⟨true, fun _ _ => Uuid.ofNat 0⟩

def blank : Replicated ClusterCatalog Unit := ⟨⟨.empty, .empty⟩, none, ⟨none, ()⟩⟩

/-- A log of cluster commands. -/
def logOf (commands : List ClusterCommand) : List (Entry ClusterCommand Unit) :=
  commands.zipIdx.map fun (c, i) => ⟨⟨1, 1, UInt64.ofNat (i + 1)⟩, .normal (.cluster c)⟩

/-- A cluster is founded and one node becomes healthy, which recounts the placements. -/
def founding : List ClusterCommand :=
  [.initializeCluster ⟨.ofNat 1, 1, .epoch, 0, none, none⟩ .default,
    .registerNode ⟨.ofNat 1, "n1:7603", defaultStorageClass, [], ⟨100, 100, 0, 0⟩, []⟩ .epoch,
    .setNodeState (.ofNat 1) .healthy none .epoch]

/-- A payload is placed on devices that are not there. -/
def placing : List ClusterCommand := founding ++ [.putPlacement (Cluster.Sample.placement [Cluster.Sample.slot 1 1])]

end Sample

/-- One member applies the log, recounts and builds a snapshot, which the other takes. -/
theorem members_agree_iff_settled_founding : ∃ s,
    run (step Sample.release (Sample.logOf Sample.founding)) (start Sample.blank)
      [.apply 1, .apply 1, .apply 1, .refresh 1, .buildSnapshot 1, .apply 2, .installSnapshot 2 0,
        .refresh 2] = some s ∧
      ((s.databases 1).lastApplied = some ⟨1, 1, 3⟩ ∧ (s.databases 2).lastApplied = some ⟨1, 1, 3⟩) ∧
      s.databases 1 = s.databases 2 := by
  refine exists_and_of (by decide +kernel) fun s hrun ⟨h1, h2⟩ => ?_
  have hagree := (members_agree_iff_settled Sample.release (Sample.logOf Sample.founding) Sample.blank (by decide) rfl
    (by decide +kernel) hrun).1
  exact hagree 1 2 (h1.trans h2.symm)

/-- Two members apply the same four entries; the leader ends a coordinator pass, and counts a payload that the
other does not. -/
theorem recount_leaves_the_log : ∃ s,
    run (step Sample.release (Sample.logOf Sample.placing)) (start Sample.blank)
      [.apply 1, .apply 1, .apply 1, .apply 1, .apply 2, .apply 2, .apply 2, .apply 2, .refresh 1] = some s ∧
      (s.databases 1).lastApplied = (s.databases 2).lastApplied ∧
      (s.databases 1).data.cluster.readCounter "under_replicated" = 1 ∧
      (s.databases 2).data.cluster.readCounter "under_replicated" = 0 := by
  decide +kernel

end Members

end RecordStore.Consensus

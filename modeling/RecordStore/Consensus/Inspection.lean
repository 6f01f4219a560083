import RecordStore.Consensus.Recovery

/-!
# Consensus.Inspection — the assessment before a recovery

`inspect` opens the two databases of a member, reports what they hold and says whether the member could be
recovered.  It opens the cluster catalog the way the server does, which records the layout version where
there is none and migrates the first layout.  It counts every entry of the log, where the recovery reports
the entries above the applied position.
-/

namespace RecordStore.Consensus

open RecordStore.Lib RecordStore.Core RecordStore.Cluster

variable {γ : Type}

/-! ## Opening the cluster catalog -/

def clusterFormatVersion : UInt32 := 3

/-- The consensus directory of a member: what its databases hold, and which tables they have. -/
structure NodeDirectory (γ : Type) where
  disk : MemberDisk γ
  -- whether `consensus-state.redb` has the table of the applied position
  appliedTable : Bool
  -- the layout version that the cluster tables record
  schema : Option UInt32
  -- whether `consensus-log.redb` has the table of its entries
  entriesTable : Bool
  nothing_applied : appliedTable = false → ∀ s ∈ disk.state, s.lastApplied = none
  no_entries : entriesTable = false → ∀ log ∈ disk.log, log.entries = ∅

inductive DirectoryError where
  | refused (error : RecoveryError)
  | incompatibleFormat (found expected : UInt32)
  | storage (operation : String)

/-- Devices become explicit and the index of the replicas is built again.  A placement is written back as it
was read. -/
def migrateToV2 (s : ClusterCatalog) : ClusterCatalog :=
  ClusterCatalog.setCounter "cluster_map_epoch" 1
    { s with
      nodes := s.nodes.map fun _ n => n.ensureLegacyDevice
      nodeReplicas := s.placements.rows.foldl
        (fun index p => p.replicas.foldl
          (fun index r =>
            index.insert (nodeReplicaKey r.nodeId p.objectId r.deviceId) (replicaStateCode r.state)) index)
        ∅ }

/-- The tables after `initialize_tables`; the layout version is then the present one. -/
def initializeTables (schema : Option UInt32) (s : ClusterCatalog) : Except DirectoryError ClusterCatalog :=
  match schema with
  | none => .ok s
  | some found =>
    if clusterFormatVersion < found then .error (.incompatibleFormat found clusterFormatVersion)
    else if found < clusterFormatVersion then
      if found ≠ 1 then .error (.incompatibleFormat found clusterFormatVersion) else .ok (migrateToV2 s)
    else .ok s

/-- The directory once the catalog's tables are initialized. -/
def NodeDirectory.initialized (d : NodeDirectory γ) (cluster : ClusterCatalog) : NodeDirectory γ where
  disk := { d.disk with state := d.disk.state.map fun s => { s with data := { s.data with cluster := cluster } } }
  appliedTable := d.appliedTable
  schema := some clusterFormatVersion
  entriesTable := d.entriesTable
  nothing_applied := by
    intro h s hs
    obtain ⟨s₀, hs₀, rfl⟩ := Option.map_eq_some_iff.mp hs
    exact d.nothing_applied h s₀ hs₀
  no_entries := d.no_entries

theorem NodeDirectory.state_initialized {d : NodeDirectory γ} {s : Replicated ClusterCatalog Membership}
    (h : d.disk.state = some s) (cluster : ClusterCatalog) :
    (d.initialized cluster).disk.state = some { s with data := { s.data with cluster := cluster } } :=
  congrArg (Option.map _) h

/-! ## The assessment -/

/-- What is reported of a member.  The health of its snapshot is left out. -/
structure RecoveryAssessment where
  cluster : Option ClusterIdentity
  lastApplied : Option UInt64
  voters : List UInt64
  members : List (UInt64 × String)
  logEntries : Nat
  recoverable : Bool
  summary : String

def NodeDirectory.countLogEntries (d : NodeDirectory γ) : Except DirectoryError Nat :=
  match d.disk.log with
  | none => .ok 0
  | some log => if d.entriesTable then .ok log.entries.size else .error (.storage "read the log")

def assessmentSummary (cluster : Option ClusterIdentity) (lastApplied : Option LogId)
    (voters logEntries : Nat) : String :=
  match cluster, lastApplied with
  | some identity, some id =>
    "member of cluster " ++ identity.clusterId.uuid.toText ++ " at log index " ++ id.number.repr ++ ", with " ++
      voters.repr ++ " recorded voter(s) and " ++ logEntries.repr ++ " unapplied log entr" ++
      if logEntries = 1 then "y" else "ies"
  | some identity, none =>
    "bound to cluster " ++ identity.clusterId.uuid.toText ++
      " but has applied nothing; there is no authority here to rebuild"
  | none, _ => "holds no cluster identity; this member was never part of a formed cluster"

def assess (d : NodeDirectory γ) (s : Replicated ClusterCatalog Membership) (cluster : ClusterCatalog) :
    Except DirectoryError RecoveryAssessment := do
  let logEntries ← d.countLogEntries
  let voters := s.lastMembership.membership.voterIds
  .ok
    { cluster := cluster.identity
      lastApplied := s.lastApplied.map (·.index)
      voters := voters
      members := s.lastMembership.membership.nodes
      logEntries := logEntries
      recoverable := s.lastApplied.isSome && cluster.identity.isSome
      summary := assessmentSummary cluster.identity s.lastApplied voters.length logEntries }

/-- The answer, and the directory afterwards. -/
def inspect (d : NodeDirectory γ) : Except DirectoryError RecoveryAssessment × NodeDirectory γ :=
  match d.disk.state with
  | none => (.error (.refused .noConsensusState), d)
  | some s =>
    if d.appliedTable = false then (.error (.storage "read the applied position"), d)
    else match initializeTables d.schema s.data.cluster with
      | .error e => (.error e, d)
      | .ok cluster => (assess d s cluster, d.initialized cluster)

/-! ## The recovery of the directory -/

section Recovery

variable (intent : RecoveryIntent) (recoveryId : Uuid) (now : DateTime) (removable : SnapshotFile → Bool)

/-- `recover_single_member` with the opening of the databases: the disk after each durable step, and the report. -/
def recoverDirectory (d : NodeDirectory γ) : Except DirectoryError (List (MemberDisk γ) × RecoveryReport) :=
  if ¬ intent.acceptDataLoss then .error (.refused .lossNotAcknowledged)
  else match d.disk.state with
    | none => .error (.refused .noConsensusState)
    | some s =>
      if d.appliedTable = false then .error (.storage "read the applied position")
      else if s.lastApplied = none then .error (.refused .nothingApplied)
      else initializeTables d.schema s.data.cluster >>= fun cluster =>
        -- the log's tables are created where they are missing, so nothing fails behind this point
        (recoverSingleMember intent recoveryId now removable (d.initialized cluster).disk).mapError .refused

end Recovery

/-! ## What each of the two asks of a directory -/

theorem initializeTables_eq_ok {schema : Option UInt32} {s : ClusterCatalog} :
    (∃ cluster, initializeTables schema s = .ok cluster) ↔ ∀ found ∈ schema, found = 1 ∨
    found = clusterFormatVersion := by
  cases schema with
  | none => exact ⟨fun _ _ h => (by cases h), fun _ => ⟨s, rfl⟩⟩
  | some found =>
    simp only [Option.mem_some_iff, forall_eq']
    unfold initializeTables
    dsimp only
    split_ifs with hnewer holder hone
    · refine ⟨fun ⟨_, h⟩ => (by cases h), ?_⟩
      rintro (rfl | rfl)
      · exact absurd hnewer (by decide)
      · exact absurd hnewer (by decide)
    · refine ⟨fun ⟨_, h⟩ => (by cases h), ?_⟩
      rintro (h | rfl)
      · exact absurd h hone
      · exact absurd holder (by decide)
    · exact ⟨fun _ => .inl (not_not.mp hone), fun _ => ⟨_, rfl⟩⟩
    · exact ⟨fun _ => .inr (UInt32.le_antisymm (UInt32.not_lt.mp hnewer) (UInt32.not_lt.mp holder)), fun _ => ⟨s, rfl⟩⟩

/-- The migration keeps the identity of the cluster. -/
theorem identity_initializeTables {schema : Option UInt32} {s cluster : ClusterCatalog}
    (h : initializeTables schema s = .ok cluster) : cluster.identity = s.identity := by
  unfold initializeTables at h
  split at h
  · cases h
    rfl
  · split_ifs at h
    all_goals cases h
    all_goals rfl

section Intent

variable {intent : RecoveryIntent}

theorem checkIntent_eq_ok {s : Replicated ClusterCatalog Membership} {lastApplied : LogId}
    {identity : ClusterIdentity} : checkIntent intent s = .ok (lastApplied, identity) ↔
      s.lastApplied = some lastApplied ∧ s.data.cluster.identity = some identity ∧
      identity.clusterId = intent.clusterId ∧ intent.memberId ∈ s.lastMembership.membership.nodes.map (·.1) := by
  constructor
  · intro h
    obtain ⟨happlied, hidentity⟩ := checkIntent_ok h
    simp only [checkIntent, happlied, hidentity, Option.elim_some, ok_bind] at h
    split_ifs at h with hcluster hmember
    exact ⟨happlied, hidentity, not_not.mp hcluster, hmember⟩
  · rintro ⟨happlied, hidentity, hcluster, hmember⟩
    simp only [checkIntent, happlied, hidentity, Option.elim_some, ok_bind]
    exact (if_neg (not_not.mpr hcluster)).trans (if_neg (not_not.mpr hmember))

/-- What a recovery with an intent needs of the directory. -/
structure NodeDirectory.Ready (intent : RecoveryIntent) (d : NodeDirectory γ) (lastApplied : LogId) : Prop where
  applied : d.appliedTable = true
  format : ∀ found ∈ d.schema, found = 1 ∨ found = clusterFormatVersion
  state : ∃ s identity, d.disk.state = some s ∧ s.lastApplied = some lastApplied ∧
    s.data.cluster.identity = some identity ∧ identity.clusterId = intent.clusterId ∧
    intent.memberId ∈ s.lastMembership.membership.nodes.map (·.1)

section Predictions

variable {recoveryId : Uuid} {now : DateTime} {removable : SnapshotFile → Bool} {d : NodeDirectory γ}

theorem recoverDirectory_ok {states : List (MemberDisk γ)} {report : RecoveryReport}
    (h : recoverDirectory intent recoveryId now removable d = .ok (states, report)) :
    ∃ lastApplied, d.Ready intent lastApplied ∧ report.lastApplied = some lastApplied.index ∧
      report.discardedLogEntries = (d.disk.log.map (discarded lastApplied)).getD 0 := by
  unfold recoverDirectory at h
  obtain ⟨-, h⟩ := ite_error_eq_ok.mp h
  cases hstate : d.disk.state with
  | none =>
    rw [hstate] at h
    cases h
  | some s =>
    rw [hstate] at h
    dsimp only at h
    obtain ⟨happlied, h⟩ := ite_error_eq_ok.mp h
    obtain ⟨-, h⟩ := ite_error_eq_ok.mp h
    obtain ⟨cluster, hcluster, h⟩ := bind_eq_ok.mp h
    obtain ⟨s', lastApplied, identity, -, -, hs', hcheck, -, -, hreport⟩ := recover_ok (mapError_eq_ok.mp h)
    obtain rfl := Option.some.inj ((NodeDirectory.state_initialized hstate cluster).symm.trans hs')
    obtain ⟨hlast, hidentity, hname, hmember⟩ := checkIntent_eq_ok.mp hcheck
    refine ⟨lastApplied,
      ⟨Bool.eq_true_of_not_eq_false happlied, initializeTables_eq_ok.mp ⟨cluster, hcluster⟩, ?_⟩, hreport⟩
    exact ⟨s, identity, hstate, hlast, (identity_initializeTables hcluster).symm.trans hidentity, hname, hmember⟩

/-- A recovery succeeds exactly on a directory that is ready for it. -/
theorem recoverDirectory_ok_iff (haccept : intent.acceptDataLoss = true) :
    (∃ r, recoverDirectory intent recoveryId now removable d = .ok r) ↔ ∃ lastApplied, d.Ready intent lastApplied := by
  constructor
  · rintro ⟨⟨states, report⟩, h⟩
    obtain ⟨lastApplied, hready, -⟩ := recoverDirectory_ok h
    exact ⟨lastApplied, hready⟩
  · rintro ⟨lastApplied, happlied, hformat, s, identity, hstate, hlast, hidentity, hname, hmember⟩
    obtain ⟨cluster, hcluster⟩ := initializeTables_eq_ok (s := s.data.cluster) |>.mpr hformat
    obtain ⟨r, hr⟩ := recover_again haccept (NodeDirectory.state_initialized hstate cluster)
      (checkIntent_eq_ok.mpr ⟨hlast, (identity_initializeTables hcluster).trans hidentity, hname, hmember⟩)
      recoveryId now removable
    refine ⟨r, ?_⟩
    unfold recoverDirectory
    rw [if_neg (not_not.mpr haccept), hstate]
    refine (if_neg (ne_false_of_eq_true happlied)).trans ((if_neg ?_).trans ?_)
    · rw [hlast]
      exact Option.some_ne_none _
    · exact bind_eq_ok.mpr ⟨cluster, hcluster, mapError_eq_ok.mpr hr⟩

/-- The member is reported as recoverable, and the intent names the cluster and a member that are reported. -/
def NodeDirectory.Reported (intent : RecoveryIntent) (d : NodeDirectory γ) : Prop :=
  ∃ a, (inspect d).1 = .ok a ∧ a.recoverable = true ∧ a.cluster.map (·.clusterId) = some intent.clusterId ∧
    intent.memberId ∈ a.members.map (·.1)

/-- The log can be counted: there is none, or it has its table. -/
def NodeDirectory.Countable (d : NodeDirectory γ) : Prop := d.disk.log.isSome = true → d.entriesTable = true

theorem countLogEntries_eq_ok {n : Nat} : d.countLogEntries = .ok n ↔
    d.Countable ∧ n = (d.disk.log.map fun log => log.entries.size).getD 0 := by
  unfold NodeDirectory.countLogEntries NodeDirectory.Countable
  cases d.disk.log with
  | none =>
    simp only [Option.isSome_none, Option.map_none, Option.getD_none, Except.ok.injEq]
    exact ⟨fun h => ⟨fun h' => (by cases h'), h.symm⟩, fun h => h.2.symm⟩
  | some log =>
    cases htable : d.entriesTable with
    | false => exact ⟨fun h => (by cases h), fun h => (by cases h.1 rfl)⟩
    | true => exact ⟨fun h => ⟨fun _ => rfl, (Except.ok.inj h).symm⟩, fun h => congrArg Except.ok h.2.symm⟩

/-- An inspection that answers: what it read, and what it left. -/
theorem inspect_ok {a : RecoveryAssessment} (h : (inspect d).1 = .ok a) :
    ∃ s cluster, d.disk.state = some s ∧ d.appliedTable = true ∧
      initializeTables d.schema s.data.cluster = .ok cluster ∧ assess d s cluster = .ok a := by
  unfold inspect at h
  cases hstate : d.disk.state with
  | none =>
    rw [hstate] at h
    cases h
  | some s =>
    rw [hstate] at h
    dsimp only at h
    split_ifs at h with happlied
    cases hcluster : initializeTables d.schema s.data.cluster with
    | error e =>
      rw [hcluster] at h
      cases h
    | ok cluster =>
      rw [hcluster] at h
      exact ⟨s, cluster, rfl, Bool.eq_true_of_not_eq_false happlied, hcluster, h⟩

theorem reported_iff : d.Reported intent ↔ d.Countable ∧ ∃ lastApplied, d.Ready intent lastApplied := by
  constructor
  · rintro ⟨a, ha, hrecoverable, hname, hmember⟩
    obtain ⟨s, cluster, hstate, happlied, hcluster, hassess⟩ := inspect_ok ha
    obtain ⟨n, hn, ha⟩ := bind_eq_ok.mp hassess
    obtain rfl := Except.ok.inj ha
    obtain ⟨hlast, -⟩ := (Bool.and_eq_true _ _).mp hrecoverable
    obtain ⟨lastApplied, hlast⟩ := Option.isSome_iff_exists.mp hlast
    obtain ⟨identity, hidentity, hname⟩ := Option.map_eq_some_iff.mp hname
    exact ⟨(countLogEntries_eq_ok.mp hn).1, lastApplied, happlied,
      initializeTables_eq_ok.mp ⟨cluster, hcluster⟩, s, identity,
      hstate, hlast, (identity_initializeTables hcluster).symm.trans hidentity, hname, hmember⟩
  · rintro ⟨hcount, lastApplied, happlied, hformat, s, identity, hstate, hlast, hidentity, hname, hmember⟩
    obtain ⟨cluster, hcluster⟩ := initializeTables_eq_ok (s := s.data.cluster) |>.mpr hformat
    have hkept := (identity_initializeTables hcluster).trans hidentity
    have hinspect : (inspect d).1 = assess d s cluster := by
      unfold inspect
      rw [hstate]
      dsimp only
      rw [if_neg (ne_false_of_eq_true happlied), hcluster]
    refine ⟨_, hinspect.trans (bind_eq_ok.mpr ⟨_, countLogEntries_eq_ok.mpr ⟨hcount, rfl⟩, rfl⟩), ?_, ?_, hmember⟩
    · rw [hlast, hkept]
      rfl
    · rw [hkept]
      exact congrArg some hname

/-- What an inspection leaves of the directory. -/
theorem inspect_leaves (d : NodeDirectory γ) :
    (inspect d).2 = d ∨ ∃ s cluster, d.disk.state = some s ∧ d.appliedTable = true ∧
      initializeTables d.schema s.data.cluster = .ok cluster ∧ (inspect d).2 = d.initialized cluster := by
  unfold inspect
  cases hstate : d.disk.state with
  | none => exact .inl rfl
  | some s =>
    dsimp only
    split_ifs with happlied
    · exact .inl rfl
    cases hcluster : initializeTables d.schema s.data.cluster with
    | error e => exact .inl rfl
    | ok cluster => exact .inr ⟨s, cluster, rfl, Bool.eq_true_of_not_eq_false happlied, hcluster, rfl⟩

/-- A directory is as ready after an inspection as before it, and its log is the same. -/
theorem ready_inspect (d : NodeDirectory γ) : (inspect d).2.disk.log = d.disk.log ∧
    ∀ lastApplied, (inspect d).2.Ready intent lastApplied ↔ d.Ready intent lastApplied := by
  rcases inspect_leaves d with h | ⟨s, cluster, hstate, happlied, hcluster, h⟩
  · rw [h]
    exact ⟨rfl, fun _ => Iff.rfl⟩
  · rw [h]
    refine ⟨rfl, fun lastApplied => ⟨?_, ?_⟩⟩
    · rintro ⟨-, -, s', identity, hs', hlast, hidentity, hname, hmember⟩
      obtain rfl := Option.some.inj ((NodeDirectory.state_initialized hstate cluster).symm.trans hs')
      exact ⟨happlied, initializeTables_eq_ok.mp ⟨cluster, hcluster⟩, s, identity, hstate, hlast,
        (identity_initializeTables hcluster).symm.trans hidentity, hname, hmember⟩
    · rintro ⟨-, -, s', identity, hs', hlast, hidentity, hname, hmember⟩
      obtain rfl := Option.some.inj (hstate.symm.trans hs')
      exact ⟨happlied, fun found hfound => .inr (Option.some.inj hfound).symm, _, identity,
        NodeDirectory.state_initialized hstate cluster, hlast,
          (identity_initializeTables hcluster).trans hidentity, hname,
        hmember⟩

/-- An inspection leaves the directory as it is, unless the layout version has to be written. -/
theorem inspect_unchanged_iff (d : NodeDirectory γ) : (inspect d).2 = d ↔
    d.disk.state = none ∨ d.appliedTable = false ∨ (d.schema ≠ none ∧ d.schema ≠ some 1) := by
  constructor
  · intro h
    by_contra hno
    rw [not_or, not_or] at hno
    obtain ⟨hsome, happlied, hschema⟩ := hno
    obtain ⟨s, hstate⟩ := Option.ne_none_iff_exists'.mp hsome
    have hold : d.schema = none ∨ d.schema = some 1 := by
      by_contra hne
      exact hschema (not_or.mp hne)
    obtain ⟨cluster, hcluster⟩ : ∃ cluster, initializeTables d.schema s.data.cluster = .ok cluster := by
      refine initializeTables_eq_ok.mpr fun found hfound => .inl ?_
      rcases hold with hnone | hone
      · rw [hnone] at hfound
        cases hfound
      · rw [hone] at hfound
        exact (Option.some.inj hfound).symm
    have hleft : (inspect d).2 = d.initialized cluster := by
      unfold inspect
      rw [hstate]
      dsimp only
      rw [if_neg happlied, hcluster]
    have hversion : some clusterFormatVersion = d.schema := congrArg NodeDirectory.schema (hleft.symm.trans h)
    rcases hold with hnone | hone
    · rw [hnone] at hversion
      cases hversion
    · rw [hone] at hversion
      exact absurd (Option.some.inj hversion) (by decide)
  · intro h
    rcases inspect_leaves d with heq | ⟨s, cluster, hstate, happlied, hcluster, heq⟩
    · exact heq
    rcases h with hnone | hfalse | ⟨hsome, hone⟩
    · cases hnone.symm.trans hstate
    · cases hfalse.symm.trans happlied
    -- the recorded version is the present one, so the tables are what they were
    obtain ⟨found, hfound⟩ := Option.ne_none_iff_exists'.mp hsome
    obtain rfl : found = clusterFormatVersion :=
      (initializeTables_eq_ok.mp ⟨cluster, hcluster⟩ found hfound).resolve_left fun e => hone (e ▸ hfound)
    rw [hfound] at hcluster
    obtain rfl : s.data.cluster = cluster := Except.ok.inj hcluster
    rw [heq]
    obtain ⟨⟨state, log, snapshots⟩, applied, schema, entries, h₁, h₂⟩ := d
    cases hstate
    cases hfound
    rfl

end Predictions

/-- Of a directory, for an intent that accepts the loss, and for a recovery before or after the inspection: the
member is reported as recoverable exactly when the recovery succeeds, unless a member that is ready has a log
database without its table; the entries announced are those that the recovery discards exactly when the log holds no
entry that is already applied; and the inspection changes nothing exactly when there is no layout version to
write. -/
theorem inspection_predicts_recovery_iff (d : NodeDirectory γ) {x : NodeDirectory γ} (hx : x = d ∨ x = (inspect d).2)
    (haccept : intent.acceptDataLoss = true) (recoveryId : Uuid) (now : DateTime) (removable : SnapshotFile → Bool) :
    ((d.Reported intent ↔ ∃ r, recoverDirectory intent recoveryId now removable x = .ok r) ↔
      ((∃ lastApplied, d.Ready intent lastApplied) → d.disk.log.isSome = true → d.entriesTable = true)) ∧
    (∀ a states report, (inspect d).1 = .ok a →
      recoverDirectory intent recoveryId now removable x = .ok (states, report) →
      ∃ lastApplied, report.lastApplied = some lastApplied ∧
        report.discardedLogEntries =
          (d.disk.log.map fun log => log.entries.toList.countP fun r => decide (lastApplied.toNat < r.1)).getD 0 ∧
        (a.logEntries = report.discardedLogEntries ↔
          ∀ log ∈ d.disk.log, ∀ row ∈ log.entries.toList, lastApplied.toNat < row.1)) ∧
    ((inspect d).2 = d ↔ d.disk.state = none ∨ d.appliedTable = false ∨ (d.schema ≠ none ∧ d.schema ≠ some 1)) := by
  obtain ⟨hlog, hready⟩ : x.disk.log = d.disk.log ∧ ∀ lastApplied, x.Ready intent lastApplied ↔
    d.Ready intent lastApplied := by
    rcases hx with rfl | rfl
    · exact ⟨rfl, fun _ => Iff.rfl⟩
    · exact ready_inspect d
  refine ⟨?_, ?_, inspect_unchanged_iff d⟩
  · rw [recoverDirectory_ok_iff haccept, reported_iff, exists_congr hready]
    exact ⟨fun h hr => (h.mpr hr).1, fun h => ⟨And.right, fun hr => ⟨h hr, hr⟩⟩⟩
  · intro a states report ha hrecover
    obtain ⟨lastApplied, -, hlast, hdiscarded⟩ := recoverDirectory_ok hrecover
    obtain ⟨s, cluster, -, -, -, hassess⟩ := inspect_ok ha
    obtain ⟨n, hn, ha⟩ := bind_eq_ok.mp hassess
    obtain rfl := Except.ok.inj ha
    obtain ⟨-, rfl⟩ := countLogEntries_eq_ok.mp hn
    rw [hlog] at hdiscarded
    refine ⟨lastApplied.index, hlast, hdiscarded, ?_⟩
    rw [hdiscarded]
    cases d.disk.log with
    | none => exact ⟨fun _ _ h => (by cases h), fun _ => rfl⟩
    | some log =>
      simp only [Option.map_some, Option.getD_some, Option.mem_some_iff, forall_eq']
      rw [← Std.ExtTreeMap.length_toList, eq_comm]
      refine List.countP_eq_length.trans ?_
      simp only [decide_eq_true_eq]
      rfl

end Intent

namespace Sample

/-- The directory of the surviving member. -/
def directory (schema : Option UInt32) (log : List (Entry Empty Membership)) : NodeDirectory Empty where
  disk := survivor log
  appliedTable := true
  schema := schema
  entriesTable := true
  nothing_applied := fun h => (by cases h)
  no_entries := fun h => (by cases h)

/-- The same, stopped before the tables of its log were created. -/
def interrupted : NodeDirectory Empty where
  disk := survivor []
  appliedTable := true
  schema := some clusterFormatVersion
  entriesTable := false
  nothing_applied := fun h => (by cases h)
  no_entries := fun _ _ h => (Option.some.inj h).symm ▸ rfl

def recoveryOf (d : NodeDirectory Empty) : Except DirectoryError (List (MemberDisk Empty) × RecoveryReport) :=
  recoverDirectory intent (.ofNat 9) .epoch (fun _ => true) d

end Sample

open Sample

theorem inspection_predicts_recovery_sample :
    (inspect (directory (some 3) [fourth])).2 = directory (some 3) [fourth] ∧
      ((directory (some 3) [fourth]).Reported intent ↔ ∃ r, recoveryOf (directory (some 3) [fourth]) = .ok r) :=
  have h := inspection_predicts_recovery_iff (directory (some 3) [fourth]) (.inl rfl)
    (show intent.acceptDataLoss = true from rfl) (.ofNat 9) .epoch fun _ => true
  ⟨h.2.2.mpr (.inr (.inr ⟨by decide, by decide⟩)), h.1.mpr fun _ _ => rfl⟩

/-- A log that still holds the applied entry: one entry is announced as lost, and none is discarded.  A directory
without a layout version is changed.  A log without its table is not assessed, and the recovery succeeds. -/
theorem inspection_mispredicts :
    ((inspect (directory (some 3) [⟨⟨1, 1, 2⟩, .blank⟩])).1.toOption.any fun a => a.recoverable &&
      a.logEntries == 1) = true ∧
    ((recoveryOf (directory (some 3) [⟨⟨1, 1, 2⟩, .blank⟩])).toOption.any fun r =>
      r.2.discardedLogEntries == 0) = true ∧
    (inspect (directory none [])).2.schema ≠ (directory none []).schema ∧
    (inspect interrupted).1.toOption.isNone = true ∧ (recoveryOf interrupted).toOption.isSome = true :=
  ⟨by decide +kernel, by decide +kernel, by decide +kernel, by decide +kernel, by decide +kernel⟩

end RecordStore.Consensus

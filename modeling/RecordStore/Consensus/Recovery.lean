import RecordStore.Lib.Replay
import RecordStore.Cluster.Commands
import RecordStore.Consensus.LogStore

/-!
# Consensus.Recovery — rebuilding a member alone

`recover_single_member`.  The state database is rewritten in one transaction: the membership becomes the
single member, and the cluster records the recovery.  The log is in another database and is reset in a
second transaction; the old snapshots are removed file by file after that.  Between the two transactions
the member has the new membership and the old log.
-/

namespace RecordStore.Consensus

open RecordStore.Lib RecordStore.Core RecordStore.Cluster Tx

variable {γ : Type}

/-! ## What is on the disk -/

/-- A membership: the voter sets in force, and every member with its address. -/
structure Membership where
  configs : List (List UInt64)
  nodes : List (UInt64 × String)
  deriving DecidableEq

def Membership.voterIds (m : Membership) : List UInt64 := m.configs.flatten.dedup

/-- A file of the snapshot directory. -/
inductive SnapshotFile where
  | body (id : String)
  | pointer
  | other (name : String)
  deriving DecidableEq

/-- The consensus directory of a member. -/
structure MemberDisk (γ : Type) where
  -- `consensus-state.redb`
  state : Option (Replicated ClusterCatalog Membership)
  -- `consensus-log.redb`
  log : Option (LogStore γ Membership)
  snapshots : List SnapshotFile

/-- What an operator asks for. -/
structure RecoveryIntent where
  clusterId : ClusterId
  memberId : UInt64
  address : String
  reason : String
  acceptDataLoss : Bool

inductive RecoveryError where
  | noConsensusState
  | nothingApplied
  | clusterMismatch (stored requested : ClusterId)
  | notInitialized
  | notAMember (requested : UInt64) (members : String)
  | lossNotAcknowledged
  | catalog (error : ClusterFailure)

/-- What a recovery did.  What it reads of the payloads afterwards is left out. -/
structure RecoveryReport where
  clusterId : ClusterId
  recoveryId : Uuid
  recoveryGeneration : UInt32
  memberId : UInt64
  lastApplied : Option UInt64
  removedVoters : List UInt64
  discardedLogEntries : Nat
  discardedSnapshots : Nat

/-! ## The procedure -/

section Procedure

variable (intent : RecoveryIntent) (recoveryId : Uuid) (now : DateTime)

def singleMemberMembership (at_ : LogId) : StoredMembership Membership :=
  ⟨some at_, ⟨[[intent.memberId]], [(intent.memberId, intent.address)]⟩⟩

/-- The checks on the state that was read. -/
def checkIntent (s : Replicated ClusterCatalog Membership) : Except RecoveryError (LogId × ClusterIdentity) := do
  let lastApplied ← s.lastApplied.elim (.error .nothingApplied) .ok
  let identity ← s.data.cluster.identity.elim (.error .notInitialized) .ok
  let recorded := s.lastMembership.membership.nodes.map (·.1)
  if identity.clusterId ≠ intent.clusterId then .error (.clusterMismatch identity.clusterId intent.clusterId)
  else if intent.memberId ∉ recorded then
    .error (.notAMember intent.memberId (", ".intercalate (recorded.map fun id => id.toNat.repr)))
  else .ok (lastApplied, identity)

/-- The transaction over the state database. -/
def rewriteState (lastApplied : LogId) (s : Replicated ClusterCatalog Membership) :
    Except ClusterFailure (Replicated ClusterCatalog Membership) :=
  match exec (applyCommandTx (.recordRecovery recoveryId intent.reason now)) s.data.cluster with
  | (.ok _, cluster) =>
    .ok { s.recordMembership (singleMemberMembership intent lastApplied) with
      data := { s.data with cluster := cluster } }
  | (.error e, _) => .error e

/-- The transaction over the log database: everything goes, and the log is anchored at the applied position. -/
def resetLog (lastApplied : LogId) (log : LogStore γ Membership) : LogStore γ Membership :=
  { log with entries := ∅, lastPurged := some lastApplied, committed := some lastApplied }

/-- The entries that a reset reports as lost. -/
def discarded (lastApplied : LogId) (log : LogStore γ Membership) : Nat :=
  log.entries.toList.countP fun r => decide (lastApplied.number < r.1)

def SnapshotFile.stale : SnapshotFile → Bool
  | body _ | pointer => true
  | other _ => false

/-- The disks that `discard_snapshots` goes through; a file that cannot be removed stays. -/
def discardSnapshots (removable : SnapshotFile → Bool) (d : MemberDisk γ) : List SnapshotFile → List (MemberDisk γ)
  | [] => []
  | f :: fs =>
    if f.stale && removable f then
      let d' := { d with snapshots := d.snapshots.erase f }
      d' :: discardSnapshots removable d' fs
    else discardSnapshots removable d fs

/-- `rebuild`: the disk after each durable step, and the report. -/
def rebuild (removable : SnapshotFile → Bool) (d : MemberDisk γ) (state : Replicated ClusterCatalog Membership) :
    Except RecoveryError (List (MemberDisk γ) × RecoveryReport) := do
  let (lastApplied, identity) ← checkIntent intent state
  let rebuilt ← (rewriteState intent recoveryId now lastApplied state).mapError .catalog
  let rewritten := { d with state := some rebuilt }
  let reset := { rewritten with log := d.log.map (resetLog lastApplied) }
  let discards := discardSnapshots removable reset reset.snapshots
  let recovered ← rebuilt.data.cluster.identity.elim (.error .notInitialized) .ok
  .ok (rewritten :: reset :: discards,
    { clusterId := identity.clusterId
      recoveryId := recoveryId
      recoveryGeneration := recovered.recoveryGeneration
      memberId := intent.memberId
      lastApplied := some lastApplied.index
      removedVoters := state.lastMembership.membership.voterIds.filter (· ≠ intent.memberId)
      discardedLogEntries := (d.log.map (discarded lastApplied)).getD 0
      discardedSnapshots := discards.length })

def recoverSingleMember (removable : SnapshotFile → Bool) (d : MemberDisk γ) :
    Except RecoveryError (List (MemberDisk γ) × RecoveryReport) :=
  if ¬ intent.acceptDataLoss then .error .lossNotAcknowledged
  else match d.state with
    | none => .error .noConsensusState
    | some state => rebuild intent recoveryId now removable d state

end Procedure

/-! ## What is found when the member is opened -/

namespace MemberDisk

/-- The entries of the log, in order. -/
def entries (d : MemberDisk γ) : List (Entry γ Membership) := (d.log.map fun log => log.entries.rows).getD []

/-- What the member has still to apply. -/
def unapplied (d : MemberDisk γ) : List (Entry γ Membership) :=
  Replay.after (·.logId.number) d.entries ((d.state.bind (·.lastApplied)).map LogId.number)

def membershipOf (e : Entry γ Membership) : Option Membership :=
  match e.payload with
  | .membership m => some m
  | _ => none

/-- The last membership in the log above what is applied, or the applied one. -/
def effectiveMembership (d : MemberDisk γ) : Option Membership :=
  ((d.unapplied.filterMap membershipOf).getLast?).or (d.state.map (·.lastMembership.membership))

end MemberDisk

/-- The catalog is as it was but for the record of the recovery. -/
def SameButRecord (s s' : ClusterCatalog) (recoveryId : Uuid) (now : DateTime) : Prop :=
  ∃ identity, s.identity = some identity ∧
    s' = { s.advanceClusterMapEpoch with
      identity := some { identity with
        recoveryGeneration := identity.recoveryGeneration + 1
        recoveryId := some recoveryId
        recoveredAt := some now } } ∧
    identity.recoveryGeneration.toNat + 1 < 2 ^ 32

/-- The member was recovered, all of it. -/
structure Recovered (intent : RecoveryIntent) (recoveryId : Uuid) (now : DateTime) (d d' : MemberDisk γ) : Prop where
  membership : d'.effectiveMembership = some ⟨[[intent.memberId]], [(intent.memberId, intent.address)]⟩
  lastApplied : d'.state.bind (·.lastApplied) = d.state.bind (·.lastApplied)
  catalog : d'.state.map (·.data.catalog) = d.state.map (·.data.catalog)
  cluster : ∃ s s', d.state = some s ∧ d'.state = some s' ∧ SameButRecord s.data.cluster s'.data.cluster recoveryId now
  unapplied : d'.unapplied = []

/-! ## The steps -/

section Steps

variable {intent : RecoveryIntent} {recoveryId : Uuid} {now : DateTime} {removable : SnapshotFile → Bool}
  {d x : MemberDisk γ} {states : List (MemberDisk γ)} {report : RecoveryReport}

/-- `RecordRecovery` is refused only by a member without an identity. -/
theorem rewriteState_eq {s : Replicated ClusterCatalog Membership} {identity : ClusterIdentity}
    (h : s.data.cluster.identity = some identity) (lastApplied : LogId) :
    rewriteState intent recoveryId now lastApplied s = .ok
      { s with
        lastMembership := singleMemberMembership intent lastApplied
        data := { s.data with
          cluster := { s.data.cluster.advanceClusterMapEpoch with
            identity := some { identity with
              recoveryGeneration :=
                if identity.recoveryGeneration = 0xffffffff then identity.recoveryGeneration
                else identity.recoveryGeneration + 1
              recoveryId := some recoveryId
              recoveredAt := some now } } } } := by
  have hret : Returns (applyCommandTx (.recordRecovery recoveryId intent.reason now)) s.data.cluster
      (.identity { identity with
        recoveryGeneration :=
          if identity.recoveryGeneration = 0xffffffff then identity.recoveryGeneration
            else identity.recoveryGeneration + 1
        recoveryId := some recoveryId
        recoveredAt := some now })
      { s.data.cluster.advanceClusterMapEpoch with
        identity := some { identity with
          recoveryGeneration :=
            if identity.recoveryGeneration = 0xffffffff then identity.recoveryGeneration
            else identity.recoveryGeneration + 1
          recoveryId := some recoveryId
          recoveredAt := some now } } := by
    simp only [applyCommandTx, returns_bind, returns_read, returns_okOr, returns_modify, returns_pure]
    exact ⟨_, _, ⟨rfl, rfl⟩, identity, _, ⟨h, rfl⟩, (), _, rfl, (), _, rfl, rfl, rfl⟩
  unfold rewriteState
  rw [show exec _ s.data.cluster = _ from hret]
  rfl

theorem elim_eq_ok {ε α : Type} {o : Option α} {e : ε} {a : α} : o.elim (.error e) Except.ok = .ok a ↔ o = some a := by
  cases o <;> simp

theorem checkIntent_ok {s : Replicated ClusterCatalog Membership} {lastApplied : LogId} {identity : ClusterIdentity}
    (h : checkIntent intent s = .ok (lastApplied, identity)) :
    s.lastApplied = some lastApplied ∧ s.data.cluster.identity = some identity := by
  simp only [checkIntent, bind_eq_ok, elim_eq_ok] at h
  obtain ⟨id, hid, found, hfound, h⟩ := h
  split_ifs at h
  cases h
  exact ⟨hid, hfound⟩

/-- The parts of a recovery that succeeds. -/
theorem recover_ok (h : recoverSingleMember intent recoveryId now removable d = .ok (states, report)) :
    ∃ s lastApplied identity rebuilt, intent.acceptDataLoss = true ∧ d.state = some s ∧
      checkIntent intent s = .ok (lastApplied, identity) ∧
      rewriteState intent recoveryId now lastApplied s = .ok rebuilt ∧
      states = { d with state := some rebuilt } ::
        { d with state := some rebuilt, log := d.log.map (resetLog lastApplied) } ::
        discardSnapshots removable
          { d with state := some rebuilt, log := d.log.map (resetLog lastApplied) } d.snapshots ∧
      report.lastApplied = some lastApplied.index ∧
      report.discardedLogEntries = (d.log.map (discarded lastApplied)).getD 0 := by
  unfold recoverSingleMember at h
  split_ifs at h with haccept
  split at h
  · cases h
  · simp only [rebuild, bind_eq_ok, mapError_eq_ok, elim_eq_ok] at h
    obtain ⟨⟨lastApplied, identity⟩, hcheck, rebuilt, hrebuilt, recovered, hrecovered, h⟩ := h
    cases h
    exact ⟨_, lastApplied, identity, rebuilt, haccept, ‹_›, hcheck, hrebuilt, rfl, rfl, rfl⟩

/-- A recovery that passes its checks succeeds, whenever it is run. -/
theorem recover_again {s : Replicated ClusterCatalog Membership} {lastApplied : LogId} {identity : ClusterIdentity}
    (haccept : intent.acceptDataLoss = true) (hstate : d.state = some s)
    (hcheck : checkIntent intent s = .ok (lastApplied, identity)) (recoveryId : Uuid) (now : DateTime)
    (removable : SnapshotFile → Bool) : ∃ r, recoverSingleMember intent recoveryId now removable d = .ok r := by
  obtain ⟨-, hidentity⟩ := checkIntent_ok hcheck
  unfold recoverSingleMember
  rw [if_neg (not_not.mpr haccept), hstate]
  exact ⟨_, bind_eq_ok.mpr ⟨_, hcheck, bind_eq_ok.mpr ⟨_, mapError_eq_ok.mpr (rewriteState_eq hidentity lastApplied),
    bind_eq_ok.mpr ⟨_, elim_eq_ok.mpr rfl, rfl⟩⟩⟩⟩

/-! ## Each crash point -/

/-- The generation can be counted up. -/
def MemberDisk.Countable (d : MemberDisk γ) : Prop :=
  ∀ s ∈ d.state, ∀ identity ∈ s.data.cluster.identity, identity.recoveryGeneration ≠ 0xffffffff

instance (d : MemberDisk γ) : Decidable d.Countable := by
  unfold MemberDisk.Countable
  infer_instance

theorem mem_discardSnapshots : ∀ {files : List SnapshotFile} {d x : MemberDisk γ},
    x ∈ discardSnapshots removable d files → x.state = d.state ∧ x.log = d.log
  | [], _, _, h => by cases h
  | f :: fs, d, x, h => by
    unfold discardSnapshots at h
    split_ifs at h
    · rcases List.mem_cons.mp h with rfl | h
      · exact ⟨rfl, rfl⟩
      · have hrest := mem_discardSnapshots h
        exact hrest
    · exact mem_discardSnapshots h

/-- With the state rewritten, the recovery is complete when nothing is left to apply. -/
theorem recovered_iff {s rebuilt : Replicated ClusterCatalog Membership} {lastApplied : LogId}
    {identity : ClusterIdentity}
    (hstate : d.state = some s) (hcheck : checkIntent intent s = .ok (lastApplied, identity))
    (hrebuilt : rewriteState intent recoveryId now lastApplied s = .ok rebuilt) (hx : x.state = some rebuilt) :
    Recovered intent recoveryId now d x ↔ d.Countable ∧ x.unapplied = [] := by
  obtain ⟨happlied, hidentity⟩ := checkIntent_ok hcheck
  rw [rewriteState_eq hidentity lastApplied] at hrebuilt
  obtain rfl := Except.ok.inj hrebuilt
  have hcountable : d.Countable ↔ identity.recoveryGeneration ≠ 0xffffffff := by
    unfold MemberDisk.Countable
    simp only [hstate, Option.mem_some_iff, forall_eq', hidentity]
  rw [hcountable]
  constructor
  · intro h
    refine ⟨fun hmax => ?_, h.unapplied⟩
    obtain ⟨s₁, s₂, hs₁, -, found, hfound, -, hlt⟩ := h.cluster
    obtain rfl := Option.some.inj (hstate.symm.trans hs₁)
    obtain rfl := Option.some.inj (hidentity.symm.trans hfound)
    rw [hmax] at hlt
    exact absurd hlt (by decide)
  · rintro ⟨hne, hnone⟩
    have hlt : identity.recoveryGeneration.toNat + 1 < 2 ^ 32 := by
      have hbound := identity.recoveryGeneration.toNat_lt
      have hmax : identity.recoveryGeneration.toNat ≠ 0xffffffff := fun e => hne (UInt32.toNat_inj.mp e)
      omega
    refine ⟨?_, ?_, ?_, ⟨s, _, hstate, hx, identity, hidentity, ?_, hlt⟩, hnone⟩
    · unfold MemberDisk.effectiveMembership
      rw [hnone, hx]
      rfl
    · rw [hx, hstate]
      rfl
    · rw [hx, hstate]
      rfl
    · rw [if_neg hne]

theorem unapplied_resetLog {lastApplied : LogId} {d : MemberDisk γ} (hlog : x.log = d.log.map (resetLog lastApplied)) :
    x.unapplied = [] := by
  have hentries : x.entries = [] := by
    unfold MemberDisk.entries
    rw [hlog]
    cases d.log with
    | none => rfl
    | some log => exact List.map_eq_nil_iff.mpr ((Window.empty 0).toList_of_le (Nat.le_refl 0))
  unfold MemberDisk.unapplied
  rw [hentries]
  rfl

/-- Whatever the member's disk was: before the first durable step a recovery that succeeds can be run again and
succeeds; after each of its durable steps the disk is the recovered one, exactly when the generation could be counted up
and, after the first of them, when the log had nothing above the applied position. -/
theorem recovery_all_or_nothing_iff (h : recoverSingleMember intent recoveryId now removable d = .ok (states, report)) :
    (∀ recoveryId' now' removable', ∃ r, recoverSingleMember intent recoveryId' now' removable' d = .ok r) ∧
      ∀ k x, states[k]? = some x →
        ((x = d ∨ Recovered intent recoveryId now d x) ↔ x = d ∨ (d.Countable ∧ (k = 0 → d.unapplied = []))) := by
  obtain ⟨s, lastApplied, identity, rebuilt, haccept, hstate, hcheck, hrebuilt, rfl, -⟩ := recover_ok h
  refine ⟨recover_again haccept hstate hcheck, fun k x hx => or_congr_right ?_⟩
  have hrewritten : ({ d with state := some rebuilt } : MemberDisk γ).unapplied = d.unapplied := by
    obtain ⟨happlied, hidentity⟩ := checkIntent_ok hcheck
    rw [rewriteState_eq hidentity lastApplied] at hrebuilt
    obtain rfl := Except.ok.inj hrebuilt
    unfold MemberDisk.unapplied
    rw [hstate]
    rfl
  cases k with
  | zero =>
    obtain rfl := Option.some.inj hx
    rw [recovered_iff hstate hcheck hrebuilt rfl, hrewritten]
    simp only [true_implies]
  | succ k =>
    -- the log is reset, whatever is left of the snapshots
    have hreset : x.state = some rebuilt ∧ x.log = d.log.map (resetLog lastApplied) := by
      cases k with
      | zero =>
        obtain rfl := Option.some.inj hx
        exact ⟨rfl, rfl⟩
      | succ k =>
        have hmem := mem_discardSnapshots (List.mem_of_getElem? hx)
        exact hmem
    rw [recovered_iff hstate hcheck hrebuilt hreset.1, unapplied_resetLog hreset.2]
    simp

end Steps

namespace Sample

/-- A cluster of three voters. -/
def trio : Membership := ⟨[[1, 2, 3]], [(1, "n1:7604"), (2, "n2:7604"), (3, "n3:7604")]⟩

/-- A member of it that has applied the entry 2, and whose log holds the given entries. -/
def survivor (log : List (Entry Empty Membership)) : MemberDisk Empty where
  state := some ⟨⟨.empty, { ClusterCatalog.empty with identity := some ⟨.ofNat 1, 1, .epoch, 0, none, none⟩ }⟩,
    some ⟨1, 1, 2⟩, ⟨some ⟨1, 1, 1⟩, trio⟩⟩
  log := some (LogStore.empty.append log)
  snapshots := [.body "1-2", .pointer, .other "tmp"]

def intent : RecoveryIntent := ⟨.ofNat 1, 1, "n1:7604", "two members are lost", true⟩

/-- An entry that has not been applied: a fourth voter. -/
def fourth : Entry Empty Membership := ⟨⟨1, 1, 3⟩, .membership ⟨[[1, 2, 3, 4]], trio.nodes ++ [(4, "n4:7604")]⟩⟩

/-- The recovery of a member. -/
def recovery (d : MemberDisk Empty) : Except RecoveryError (List (MemberDisk Empty) × RecoveryReport) :=
  recoverSingleMember intent (.ofNat 9) .epoch (fun _ => true) d

end Sample

open Sample

theorem recovery_all_or_nothing_iff_applied :
    ∃ r, recovery (survivor [⟨⟨1, 1, 2⟩, .blank⟩]) = .ok r ∧ r.1.length = 4 ∧
      ∀ x ∈ r.1, x = survivor [⟨⟨1, 1, 2⟩, .blank⟩] ∨
        Recovered intent (.ofNat 9) .epoch (survivor [⟨⟨1, 1, 2⟩, .blank⟩]) x := by
  refine exists_and_of (by decide +kernel) fun r hok _ x hx => ?_
  have hnone : (survivor [⟨⟨1, 1, 2⟩, .blank⟩]).unapplied = [] := List.isEmpty_iff.mp (by decide +kernel)
  obtain ⟨k, hk⟩ := List.getElem?_of_mem hx
  exact ((recovery_all_or_nothing_iff hok).2 k x hk).mpr (.inr ⟨by decide +kernel, fun _ => hnone⟩)

/-- After the first durable step the effective membership is one of four voters that was never applied, its entry can
still be applied, and the same recovery run again counts a second generation. -/
theorem crash_before_log_reset : ∃ r, recovery (survivor [fourth]) = .ok r ∧ r.2.recoveryGeneration = 1 ∧
    ∃ x, r.1[0]? = some x ∧ x.effectiveMembership = some ⟨[[1, 2, 3, 4]], trio.nodes ++ [(4, "n4:7604")]⟩ ∧
    x.unapplied.length = 1 ∧ ∃ r', recovery x = .ok r' ∧ r'.2.recoveryGeneration = 2 := by
  decide +kernel

end RecordStore.Consensus

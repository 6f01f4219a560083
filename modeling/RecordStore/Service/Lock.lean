import RecordStore.Metadata.Runs

/-!
# Service.Lock — concurrent lock changes

`ObjectLockService::change` reads the lock state of a version, computes the state that should replace
it, and hands the whole replacement to the catalog.  Between the read and the write it holds the
bucket's lock in shared mode only, so the steps of two changes interleave freely.  The file has the
two steps as the service makes them, the system of several callers over one catalog, and what two
changes to the two halves of one lock state leave behind.
-/

namespace RecordStore.Service

open RecordStore.Lib RecordStore.Core RecordStore.Metadata Tx

/-! ## Errors -/

/-- The failures a lock change is answered with. -/
inductive ServiceError where
  | bucketNotFound
  | bucketAlreadyExists
  | bucketNotEmpty
  | objectNotFound
  | multipartUploadNotFound
  | quotaExceeded
  | objectLocked (block : LockBlock)
  | objectLockChangeRefused (reason : LockChangeRefused)
  | bypassNotRecordable
  | objectLockNotEnabled
  | objectLockRequiresVersioning
  | retentionClockUnavailable
  | invalidRequest (reason : String)
  | metadata (error : MetadataError)
  deriving DecidableEq

def mapMetadata : MetadataError → ServiceError
  | .bucketAlreadyExists => .bucketAlreadyExists
  | .bucketNotFound => .bucketNotFound
  | .bucketNotEmpty => .bucketNotEmpty
  | .multipartUploadNotFound => .multipartUploadNotFound
  | .quotaExceeded => .quotaExceeded
  | .versionLocked block => .objectLocked block
  | .objectLockChangeRefused reason => .objectLockChangeRefused reason
  | .objectLockNotEnabled => .objectLockNotEnabled
  | .objectLockVersionNotFound => .objectNotFound
  | .objectLockRequiresVersioning => .objectLockRequiresVersioning
  | .objectLockNotEnabledAtCreation => .objectLockRequiresVersioning
  | .clockWentBackwards => .retentionClockUnavailable
  | .invalidObjectLock reason => .invalidRequest reason
  | error => .metadata error

/-- What a catalog failure is answered with; a panic ends the blocking task it runs in. -/
def mapFailure : Failure → ServiceError
  | .refused error => mapMetadata error
  | .panicked _ => .metadata (.task "task panicked")

/-! ## One change -/

/-- The state of the durable audit trail. -/
inductive AuditTrail where
  | absent
  | failing
  | durable
  deriving DecidableEq

/-- Deployment-wide Object Lock settings. -/
structure LockPolicy where
  clockToleranceSeconds : UInt32
  audit : AuditTrail
  deriving DecidableEq

/-- The half of a lock state a call replaces. -/
inductive Change where
  | retention (retention : Option Retention)
  | legalHold (legalHold : Bool)
  deriving DecidableEq

/-- The closures of `put_retention` and `put_legal_hold`. -/
def Change.apply : Change → ObjectLockState → ObjectLockState
  | .retention r, current => { current with retention := r }
  | .legalHold h, current => current.withLegalHold h

/-- One call of `put_retention` or `put_legal_hold`; `now` is what the clock shows it. -/
structure ChangeCall where
  bucketName : BucketName
  key : ObjectKey
  versionId : Option VersionId
  change : Change
  bypassGovernance : Bool
  now : DateTime

/-- The version of an object version's lock. -/
structure VersionLock where
  versionId : VersionId
  state : ObjectLockState
  deriving DecidableEq

/-- What a call carries from its read to its write. -/
structure PendingChange where
  bucketId : BucketId
  versionId : VersionId
  requested : ObjectLockState
  deriving DecidableEq

namespace ChangeCall

variable (call : ChangeCall) (policy : LockPolicy)

/-- `resolve_bucket`, the check that Object Lock is on, `resolve_version`. -/
def target (s : Catalog) : Except ServiceError (BucketId × VersionId) :=
  match s.bucketNames[call.bucketName.value]? with
  | none => .error .bucketNotFound
  | some bucket =>
    if bucket.objectLock.isNone then .error .objectLockNotEnabled
    else match call.versionId with
      | some version => .ok (bucket.id, version)
      | none =>
        match s.objects[objectKey bucket.id call.key]? with
        | some metadata => .ok (bucket.id, metadata.versionId)
        | none => .error .objectNotFound

/-- The first step: resolve the version, read its lock state, compute the replacement. -/
def read (s : Catalog) : Except ServiceError PendingChange :=
  match call.target s with
  | .error e => .error e
  | .ok (bucket, version) =>
    .ok { bucketId := bucket, versionId := version, requested := call.change.apply (s.readObjectLock version) }

/-- `LockPolicy::release`. -/
def release : LockRelease where
  observedAt := call.now
  clockToleranceSeconds := policy.clockToleranceSeconds
  bypassGovernance := call.bypassGovernance

/-- `begin_bypass`: a bypass nobody can account for is refused. -/
def beginBypass : Except ServiceError Unit :=
  if call.bypassGovernance = false then .ok ()
  else match policy.audit with
    | .durable => .ok ()
    | .absent | .failing => .error .bypassNotRecordable

/-- The second step: announce a bypass, then write the replacement in one transaction. -/
def write (p : PendingChange) (s : Catalog) : Except ServiceError VersionLock × Catalog :=
  match call.beginBypass policy with
  | .error e => (.error e, s)
  | .ok _ =>
    match commit (putObjectLockTx p.bucketId call.key p.versionId p.requested (call.release policy)) s with
    | (.ok state, s') => (.ok ⟨p.versionId, state⟩, s')
    | (.error f, s') => (.error (mapFailure f), s')

end ChangeCall

/-! ## Callers over one catalog -/

inductive CallState where
  | waiting
  | pending (p : PendingChange)
  | done (result : Except ServiceError VersionLock)
  deriving DecidableEq

/-- A catalog and the progress of every caller.  The bucket lock is left out: every caller holds it
in shared mode, which excludes none of the others. -/
structure LockSystem (ι : Type) where
  catalog : Catalog
  state : ι → CallState

section System

variable {ι : Type} [DecidableEq ι] (policy : LockPolicy) (calls : ι → ChangeCall)

/-- The next step of one caller. -/
def advance (sys : LockSystem ι) (i : ι) : LockSystem ι :=
  match sys.state i with
  | .waiting =>
    match (calls i).read sys.catalog with
    | .ok p => { sys with state := Function.update sys.state i (.pending p) }
    | .error e => { sys with state := Function.update sys.state i (.done (.error e)) }
  | .pending p =>
    let r := (calls i).write policy p sys.catalog
    { catalog := r.2, state := Function.update sys.state i (.done r.1) }
  | .done _ => sys

/-- The steps of the callers in the order of a schedule. -/
def interleave (schedule : List ι) (s : Catalog) : LockSystem ι :=
  schedule.foldl (advance policy calls) { catalog := s, state := fun _ => .waiting }

end System

/-! ## Steps -/

section Steps

variable {policy : LockPolicy} {call : ChangeCall} {s s' : Catalog} {p : PendingChange}

/-- A successful write leaves the requested state, and changes nothing else a call looks at. -/
theorem write_ok {lock : VersionLock} (h : call.write policy p s = (.ok lock, s')) :
    s'.readObjectLock p.versionId = p.requested ∧ s'.bucketNames = s.bucketNames ∧ s'.objects = s.objects := by
  unfold ChangeCall.write at h
  cases hb : call.beginBypass policy with
  | error e =>
    rw [hb] at h
    cases h
  | ok _ =>
    rw [hb] at h
    simp only at h
    cases hc : commit (putObjectLockTx p.bucketId call.key p.versionId p.requested (call.release policy)) s with
    | mk r s₁ =>
      rw [hc] at h
      cases r with
      | error f => cases h
      | ok updated =>
        obtain ⟨-, rfl⟩ := Prod.mk.inj h
        obtain ⟨_, _, _, st, c, -, -, -, -, -, hst, rfl, rfl⟩ := putObjectLockTx_returns (commit_eq_ok.mp hc)
        refine ⟨?_, rfl, rfl⟩
        have hup : st.withLegalHold p.requested.legalHold = p.requested := by
          rw [ObjectLockState.withRetention_ok hst]
          rfl
        rw [hup]
        unfold Catalog.readObjectLock
        split_ifs with hu
        · -- an unlocked state leaves no record, and a missing record reads as unlocked
          rw [Table.lookup_erase_self, Option.getD_none]
          obtain ⟨hr, hl⟩ : p.requested.retention = none ∧ p.requested.legalHold = false := by
            simpa [ObjectLockState.isUnlocked] using hu
          cases hp : p.requested with
          | mk retention legalHold =>
            rw [hp] at hr hl
            simp only at hr hl
            rw [hr, hl]
            rfl
        · rw [Table.lookup_insert_self, Option.getD_some]

theorem target_congr (hn : s'.bucketNames = s.bucketNames) (ho : s'.objects = s.objects) :
    call.target s' = call.target s := by
  unfold ChangeCall.target
  rw [hn, ho]

end Steps

/-! ## Two calls -/

section Two

variable {ι : Type} [DecidableEq ι] {policy : LockPolicy} {calls : ι → ChangeCall} {s : Catalog}
  {bucket : BucketId} {version : VersionId} {a b : ι}

/-- The call has succeeded. -/
def Succeeded (sys : LockSystem ι) (i : ι) : Prop := ∃ lock, sys.state i = .done (.ok lock)

theorem advance_waiting {sys : LockSystem ι} (hw : sys.state a = .waiting)
    (ht : (calls a).target sys.catalog = .ok (bucket, version)) :
    advance policy calls sys a = { sys with
      state := Function.update sys.state a (.pending
        ⟨bucket, version, (calls a).change.apply (sys.catalog.readObjectLock version)⟩) } := by
  unfold advance
  rw [hw]
  simp only [ChangeCall.read, ht]

theorem advance_pending {sys : LockSystem ι} {p : PendingChange} (hp : sys.state a = .pending p) :
    advance policy calls sys a =
      { catalog := ((calls a).write policy p sys.catalog).2
        state := Function.update sys.state a (.done ((calls a).write policy p sys.catalog).1) } := by
  unfold advance
  rw [hp]

/-- A call that runs alone, read and write in a row, leaves its change applied to what it found. -/
theorem advance_twice {sys : LockSystem ι} (hw : sys.state a = .waiting)
    (ht : (calls a).target sys.catalog = .ok (bucket, version))
    (hok : Succeeded (advance policy calls (advance policy calls sys a) a) a) :
    (advance policy calls (advance policy calls sys a) a).catalog.readObjectLock version =
        (calls a).change.apply (sys.catalog.readObjectLock version) ∧
      (∀ i, i ≠ a → (advance policy calls (advance policy calls sys a) a).state i = sys.state i) ∧
      ∀ i, (calls i).target (advance policy calls (advance policy calls sys a) a).catalog =
        (calls i).target sys.catalog := by
  obtain ⟨lock, hlock⟩ := hok
  rw [advance_waiting hw ht] at hlock ⊢
  rw [advance_pending (Function.update_self _ _ _)] at hlock ⊢
  simp only [Function.update_self, CallState.done.injEq] at hlock
  obtain ⟨hread, hn, ho⟩ := write_ok (Prod.ext hlock rfl)
  refine ⟨hread, ?_, fun i => target_congr hn ho⟩
  intro i hi
  simp only [Function.update_of_ne hi]

/-- One call after the other: both changes arrive. -/
theorem interleave_serial (hab : a ≠ b) (ht : ∀ i, (calls i).target s = .ok (bucket, version))
    (ha : Succeeded (interleave policy calls [a, a, b, b] s) a)
    (hb : Succeeded (interleave policy calls [a, a, b, b] s) b) :
    (interleave policy calls [a, a, b, b] s).catalog.readObjectLock version =
      (calls b).change.apply ((calls a).change.apply (s.readObjectLock version)) := by
  simp only [interleave, List.foldl_cons, List.foldl_nil] at ha hb ⊢
  generalize hsys : ({ catalog := s, state := fun _ => .waiting } : LockSystem ι) = sys₀ at ha hb ⊢
  have hs : sys₀.catalog = s := by rw [← hsys]
  have hwait : ∀ i, sys₀.state i = .waiting := fun i => by rw [← hsys]
  generalize h1 : advance policy calls (advance policy calls sys₀ a) a = sys₁ at ha hb ⊢
  -- the first call ended before the second began, and the second does not change its result
  have hdone : Succeeded sys₁ a := by
    obtain ⟨lock, hlock⟩ := ha
    refine ⟨lock, ?_⟩
    have hkeep : ∀ sys : LockSystem ι, (advance policy calls sys b).state a = sys.state a := by
      intro sys
      unfold advance
      cases sys.state b with
      | waiting => cases (calls b).read sys.catalog <;> exact Function.update_of_ne hab _ _
      | pending p => exact Function.update_of_ne hab _ _
      | done r => rfl
    rw [← hlock, hkeep, hkeep]
  obtain ⟨hr₁, hst₁, ht₁⟩ := advance_twice (hwait a) (by rw [hs]; exact ht a) (h1 ▸ hdone)
  rw [h1] at hr₁ hst₁ ht₁
  obtain ⟨hr₂, -, -⟩ := advance_twice ((hst₁ b hab.symm).trans (hwait b)) (by rw [ht₁ b, hs]; exact ht b) hb
  rw [hr₂, hr₁, hs]

/-- Two writes that were both computed before either was made: the later one decides. -/
theorem advance_writes {sys : LockSystem ι} {p q : PendingChange} (hab : a ≠ b) (ha : sys.state a = .pending p)
    (hb : sys.state b = .pending q) (hok : Succeeded (advance policy calls (advance policy calls sys a) b) b) :
    (advance policy calls (advance policy calls sys a) b).catalog.readObjectLock q.versionId = q.requested := by
  obtain ⟨lock, hlock⟩ := hok
  have hb' : (advance policy calls sys a).state b = .pending q := by
    rw [advance_pending ha]
    simp only [Function.update_of_ne hab.symm, hb]
  rw [advance_pending hb'] at hlock ⊢
  simp only [Function.update_self, CallState.done.injEq] at hlock
  exact (write_ok (Prod.ext hlock rfl)).1

/-- Both calls read before either writes: the change of the call that writes first is lost. -/
theorem interleave_overlap (hab : a ≠ b) (ht : ∀ i, (calls i).target s = .ok (bucket, version)) {x y : ι}
    (hxy : (x = a ∧ y = b) ∨ (x = b ∧ y = a))
    (hy : Succeeded (interleave policy calls [a, b, x, y] s) y) :
    (interleave policy calls [a, b, x, y] s).catalog.readObjectLock version =
      (calls y).change.apply (s.readObjectLock version) := by
  simp only [interleave, List.foldl_cons, List.foldl_nil] at hy ⊢
  rw [advance_waiting (a := a) rfl (ht a)] at hy ⊢
  rw [advance_waiting (a := b) (Function.update_of_ne hab.symm _ _) (ht b)] at hy ⊢
  rcases hxy with ⟨rfl, rfl⟩ | ⟨rfl, rfl⟩
  · exact advance_writes hab ((Function.update_of_ne hab _ _).trans (Function.update_self _ _ _))
      (Function.update_self _ _ _) hy
  · exact advance_writes hab.symm (Function.update_self _ _ _)
      ((Function.update_of_ne hab _ _).trans (Function.update_self _ _ _)) hy

end Two

/-! ## A retention and a legal hold -/

section RetentionAndHold

/-- The two concurrent calls. -/
inductive Caller where
  | retention
  | hold
  deriving DecidableEq

/-- The calls do not overlap, or the one that writes last writes back what the other asked for. -/
def KeepsBoth (schedule : List Caller) (initial : ObjectLockState) (r : Option Retention) (h : Bool) : Prop :=
  schedule[0]? = schedule[1]? ∨
    (schedule.getLast? = some .retention ∧ initial.legalHold = h) ∨
    (schedule.getLast? = some .hold ∧ initial.retention = r)

theorem count_add_count (l : List Caller) : l.count .retention + l.count .hold = l.length := by
  induction l with
  | nil => rfl
  | cons c l ih => cases c <;> simp <;> omega

/-- Two steps of each caller interleave in six ways. -/
theorem schedule_cases {l : List Caller} (hr : l.count .retention = 2) (hh : l.count .hold = 2) :
    ∃ a b : Caller, a ≠ b ∧ (l = [a, a, b, b] ∨ l = [a, b, a, b] ∨ l = [a, b, b, a]) := by
  have hlen : l.length = 4 := by rw [← count_add_count, hr, hh]
  match l, hlen with
  | [c₁, c₂, c₃, c₄], _ =>
    cases c₁ <;> cases c₂ <;> cases c₃ <;> cases c₄ <;>
      first
        | exact absurd hr (by decide)
        | exact ⟨.retention, .hold, by decide, by decide⟩
        | exact ⟨.hold, .retention, by decide, by decide⟩

variable {policy : LockPolicy} {calls : Caller → ChangeCall} {s : Catalog} {bucket : BucketId}
  {version : VersionId} {r : Option Retention} {h : Bool}

/-- Both changes applied, in either order, give the state both calls asked for. -/
theorem apply_both (hr : (calls .retention).change = .retention r) (hh : (calls .hold).change = .legalHold h)
    {a b : Caller} (hab : a ≠ b) (st : ObjectLockState) :
    (calls b).change.apply ((calls a).change.apply st) = ⟨r, h⟩ := by
  cases a <;> cases b
  · exact absurd rfl hab
  · rw [hr, hh]
    rfl
  · rw [hr, hh]
    rfl
  · exact absurd rfl hab

/-- The change of one call alone gives that state exactly when the other half is already as wanted. -/
theorem apply_one (hr : (calls .retention).change = .retention r) (hh : (calls .hold).change = .legalHold h)
    (c : Caller) (st : ObjectLockState) :
    (calls c).change.apply st = ⟨r, h⟩ ↔
      (c = .retention ∧ st.legalHold = h) ∨ (c = .hold ∧ st.retention = r) := by
  cases c with
  | retention => simp [hr, Change.apply]
  | hold => simp [hh, Change.apply, ObjectLockState.withLegalHold]

/-- Two successful calls on one version, one for its retention and one for its legal hold, leave both
as asked for exactly when they do not overlap or the last write happens to write back the right half. -/
theorem concurrent_changes_kept_iff (policy : LockPolicy) (calls : Caller → ChangeCall) (s : Catalog)
    (bucket : BucketId) (version : VersionId) (r : Option Retention) (h : Bool)
    (hr : (calls .retention).change = .retention r) (hh : (calls .hold).change = .legalHold h)
    (ht : ∀ c, (calls c).target s = .ok (bucket, version)) (schedule : List Caller)
    (h2 : schedule.count .retention = 2) (h2' : schedule.count .hold = 2)
    (hok : ∀ c, Succeeded (interleave policy calls schedule s) c) :
    (interleave policy calls schedule s).catalog.readObjectLock version = ⟨r, h⟩ ↔
      KeepsBoth schedule (s.readObjectLock version) r h := by
  obtain ⟨a, b, hab, rfl | rfl | rfl⟩ := schedule_cases h2 h2'
  · rw [interleave_serial hab ht (hok a) (hok b), apply_both hr hh hab]
    exact ⟨fun _ => .inl rfl, fun _ => rfl⟩
  · rw [interleave_overlap hab ht (.inl ⟨rfl, rfl⟩) (hok b), apply_one hr hh]
    simp [KeepsBoth, hab]
  · rw [interleave_overlap hab ht (.inr ⟨rfl, rfl⟩) (hok a), apply_one hr hh]
    simp [KeepsBoth, hab]

end RetentionAndHold

namespace Sample

/-- A compliance retention. -/
def retention : Retention := ⟨.compliance, Metadata.Sample.later⟩

/-- The retention and a legal hold asked for on the same version. -/
def calls (h : Bool) : Caller → ChangeCall
  | .retention =>
    ⟨Metadata.Sample.bucketName, Metadata.Sample.key, some (.ofNat 20), .retention (some retention), false, .epoch⟩
  | .hold => ⟨Metadata.Sample.bucketName, Metadata.Sample.key, some (.ofNat 20), .legalHold h, false, .epoch⟩

/-- A version without any lock, in a bucket under Object Lock. -/
def catalog : Catalog :=
  run Metadata.Sample.env [.createBucket (Metadata.Sample.bucket .enabled (some ⟨none⟩)),
    .putObject (Metadata.Sample.object 10 20 5) none .direct]

def policy : LockPolicy := ⟨0, .absent⟩

end Sample

/-- A retention and a legal hold placed at the same time: both calls read the unlocked state, the hold
is written, then the retention over it.  Both calls report success and the hold is gone. -/
theorem legal_hold_lost :
    (∀ c, Succeeded (interleave Sample.policy (Sample.calls true) [.retention, .hold, .hold, .retention]
      Sample.catalog) c) ∧
      (interleave Sample.policy (Sample.calls true) [.retention, .hold, .hold, .retention]
        Sample.catalog).catalog.readObjectLock (.ofNat 20) = ⟨some Sample.retention, false⟩ := by
  refine ⟨fun c => ?_, by decide +kernel⟩
  cases c with
  | retention => exact ⟨⟨.ofNat 20, ⟨some Sample.retention, false⟩⟩, by decide +kernel⟩
  | hold => exact ⟨⟨.ofNat 20, ⟨none, true⟩⟩, by decide +kernel⟩

theorem concurrent_changes_kept_iff_serial :
    (interleave Sample.policy (Sample.calls true) [.retention, .retention, .hold, .hold]
      Sample.catalog).catalog.readObjectLock (.ofNat 20) = ⟨some Sample.retention, true⟩ := by
  refine (concurrent_changes_kept_iff Sample.policy (Sample.calls true) Sample.catalog (.ofNat 1) (.ofNat 20)
    (some Sample.retention) true rfl rfl ?_ _ rfl rfl ?_).mpr (.inl rfl)
  · intro c
    cases c <;> decide +kernel
  · intro c
    cases c with
    | retention => exact ⟨⟨.ofNat 20, ⟨some Sample.retention, false⟩⟩, by decide +kernel⟩
    | hold => exact ⟨⟨.ofNat 20, ⟨some Sample.retention, true⟩⟩, by decide +kernel⟩

end RecordStore.Service

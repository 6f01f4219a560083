import RecordStore.Metadata.Listing

/-!
# Lifecycle.Worker — the pieces of a pass over the lifecycle rules

`run_once` runs every enabled rule in the order of the rule table and stops at the first error.  `run_rule`
reads one page of current objects and one page of versions from where the rule's cursor stands, deletes what
is past its cutoff, and writes the cursor.  `Lifecycle.Steps` puts the pieces together, between those of other
callers.
-/

namespace RecordStore.Lifecycle

open RecordStore.Lib RecordStore.Core RecordStore.Metadata Tx

/-! ## What the worker keeps and returns -/

/-- The progress of a rule, kept under the rule's identifier. -/
structure RuleCursor where
  currentKey : Option String
  versionKey : Option String
  versionId : Option VersionId
  deriving DecidableEq

def RuleCursor.default : RuleCursor := ⟨none, none, none⟩

/-- Observable outcome of one bounded metadata scan. -/
structure LifecycleRunResult where
  scanned : UInt64
  expired : UInt64
  skipped : UInt64
  failures : UInt64
  deriving DecidableEq

inductive LifecycleError where
  | bucketMissing
  | metadata (error : MetadataError)
  | audit
  deriving DecidableEq

/-- What `open` fixes, and the lock policy of the services. -/
structure Settings where
  env : Env
  batchSize : Nat
  batch_range : 1 ≤ batchSize ∧ batchSize ≤ 1000
  clockToleranceSeconds : UInt32

/-- What one expiry meets: the delete marker generated for it, the clock, and whether the audit trail takes the
announcement and the record of a skipped version. -/
structure Tick where
  marker : NewDeleteMarker
  observedAt : DateTime
  announced : Bool
  recorded : Bool

/-- `LockPolicy::release` for a context of the system: no bypass. -/
def Settings.release (cfg : Settings) (tick : Tick) : LockRelease :=
  ⟨tick.observedAt, cfg.clockToleranceSeconds, false⟩

/-- `Utc::now() - Duration::days(n)`. -/
structure Cutoff where
  seconds : Int
  nanoseconds : Nat
  deriving DecidableEq

namespace Cutoff

def before (now : DateTime) (days : ExpirationDays) : Cutoff := ⟨now.seconds - 86400 * days.get.toNat, now.nanoseconds⟩

/-- `t <= cutoff`. -/
def covers (c : Cutoff) (t : DateTime) : Bool :=
  decide (t.seconds < c.seconds ∨ (t.seconds = c.seconds ∧ t.nanoseconds ≤ c.nanoseconds))

end Cutoff

/-! ## One entry of a page -/

inductive Item where
  | object (object : ObjectMetadata)
  | version (version : ListedObjectVersion)
  deriving DecidableEq

/-- What a delete is answered with, as far as the worker looks at it. -/
inductive Answer where
  | expired
  -- there was nothing to hide
  | absent
  -- Object Lock held the version back, for the reason that is recorded
  | skipped (reason : String)
  | failed
  deriving DecidableEq

namespace Item

def key : Item → ObjectKey
  | object o => o.key
  | version v => v.record.key

/-- Whether the entry is past the cutoff: a current object by its modification, a version that is not the latest by its
creation. -/
def due (cutoff : Cutoff) : Item → Bool
  | object o => cutoff.covers o.modifiedAt
  | version v => !v.isLatest && cutoff.covers v.record.createdAt

def answerObject : Except Failure DeleteObjectResult → Answer
  | .ok result => if result.previouslyVisible then .expired else .absent
  | .error _ => .failed

def answerVersion : Except Failure (Option DeleteVersionResult) → Answer
  | .ok (some _) => .expired
  | .ok none => .failed
  | .error (.refused (.versionLocked block)) => .skipped block.label
  | .error (.refused .clockWentBackwards) => .skipped "clock_unavailable"
  | .error _ => .failed

/-- The delete in the bucket that the name stands for. -/
def deleteIn (cfg : Settings) (tick : Tick) (bucket : BucketId) (s : Catalog) : Item → Answer × Catalog
  | object o =>
    let r := commit (deleteObjectTx cfg.env bucket o.key tick.marker) s
    (answerObject r.1, r.2)
  | version v =>
    let r := commit (deleteObjectVersionTx cfg.env bucket v.record.key v.record.versionId (cfg.release tick)) s
    (answerVersion r.1, r.2)

/-- `services.objects.delete` and `delete_version`.  The name is resolved again for every call.  Resolving and deleting
are one step here: a bucket that goes away between the two only has the delete refused. -/
def delete (cfg : Settings) (tick : Tick) (name : BucketName) (s : Catalog) (item : Item) : Answer × Catalog :=
  match s.bucketNames[name.value]? with
  | none => (.failed, s)
  | some bucket => item.deleteIn cfg tick bucket.id s

end Item

namespace LifecycleRunResult

def default : LifecycleRunResult := ⟨0, 0, 0, 0⟩

def scan (r : LifecycleRunResult) : LifecycleRunResult := { r with scanned := saturatingAdd r.scanned 1 }

def fail (r : LifecycleRunResult) : LifecycleRunResult := { r with failures := saturatingAdd r.failures 1 }

def count (r : LifecycleRunResult) : Answer → LifecycleRunResult
  | .expired => { r with expired := saturatingAdd r.expired 1 }
  | .absent => r
  | .skipped _ => { r with skipped := saturatingAdd r.skipped 1 }
  | .failed => r.fail

end LifecycleRunResult

/-! ## A page -/

/-- The scan that an entry belongs to. -/
structure Job where
  rule : LifecycleRule
  name : BucketName
  cutoff : Cutoff

/-- A delete that was called: the scan, the entry, what it met and the catalog it found. -/
structure Call where
  job : Job
  item : Item
  tick : Tick
  before : Catalog

/-- How the call was answered, and the catalog it left. -/
def Call.outcome (cfg : Settings) (c : Call) : Answer × Catalog := c.item.delete cfg c.tick c.job.name c.before

/-- A version that was held back is recorded, and a record that the audit trail does not take ends the rule. -/
def Call.error (cfg : Settings) (c : Call) : Option LifecycleError :=
  match (c.outcome cfg).1 with
  | .skipped _ => if c.tick.recorded then none else some .audit
  | _ => none

structure Scan where
  catalog : Catalog
  result : LifecycleRunResult
  calls : List Call
  error : Option LifecycleError

/-- The loop body of `run_rule`: an expiry that cannot be announced is left for later. -/
def visit (cfg : Settings) (job : Job) (tick : Tick) (x : Scan) (item : Item) : Scan :=
  if x.error.isSome then x
  else if item.due job.cutoff then
    if tick.announced then
      let call : Call := ⟨job, item, tick, x.catalog⟩
      { catalog := (call.outcome cfg).2
        result := x.result.scan.count (call.outcome cfg).1
        calls := x.calls ++ [call]
        error := call.error cfg }
    else { x with result := x.result.scan.fail }
  else { x with result := x.result.scan }

/-! ## A rule -/

structure World where
  catalog : Catalog
  cursors : Table Bytes RuleCursor

def World.readCursor (w : World) (id : LifecycleRuleId) : RuleCursor := (w.cursors[id.bytes]?).getD .default

def objectsRequest (cfg : Settings) (rule : LifecycleRule) (cursor : RuleCursor) : ListObjectsRequest where
  bucketId := rule.bucketId
  keyPrefix := rule.keyPrefix
  startAfter := cursor.currentKey
  limit := cfg.batchSize

def versionsRequest (cfg : Settings) (rule : LifecycleRule) (cursor : RuleCursor) : ListObjectVersionsRequest where
  bucketId := rule.bucketId
  keyPrefix := rule.keyPrefix
  keyMarker := cursor.versionKey
  versionIdMarker := cursor.versionId
  limit := cfg.batchSize

/-! ## A pass -/

/-- The enabled rules, in the order of their identifiers. -/
def enabledRules (s : Catalog) : List LifecycleRule := s.lifecycleRules.rows.filter (·.enabled)

/-! ## What a delete does -/

section Deletes

variable {env : Env} {s s' : Catalog} {bucket : BucketId} {key : ObjectKey}

/-- An ordinary delete takes the key's object out of sight.  In a bucket that is not versioned it also removes the
key's null version, whichever version that is. -/
structure Hides (s s' : Catalog) (bucket : BucketId) (key : ObjectKey) (marker : NewDeleteMarker) : Prop where
  objects : s'.objects = s.objects.erase (objectKey bucket key)
  removed : ∃ record removed, s.readBucket bucket = some record ∧
    (if record.versioning = .enabled then removed = none else NullVersion s bucket key removed) ∧
    (s'.versions = dropVersion removed s.versions ∨
      ∃ r, s'.versions = (dropVersion removed s.versions).insert marker.versionId.bytes r)
  buckets : s'.buckets = s.buckets
  names : s'.bucketNames = s.bucketNames
  rules : s'.lifecycleRules = s.lifecycleRules

theorem hides_of_returns {marker : NewDeleteMarker} {res : DeleteObjectResult}
    (h : Returns (deleteObjectTx env bucket key marker) s res s') : Hides s s' bucket key marker := by
  obtain ⟨record, s₁, r, hb, hdel, t, e, -, rfl⟩ := deleteObjectTx_returns h
  by_cases hv : record.versioning = .disabled
  · rw [hv] at hdel
    obtain ⟨removed, hnull, -, -, t', -, rfl⟩ := deleteCurrent_disabled hdel
    refine ⟨rfl, ⟨record, removed, hb, ?_, .inl rfl⟩, rfl, rfl, rfl⟩
    rw [if_neg (by rw [hv]; decide)]
    exact hnull
  · obtain ⟨isNull, removed, hn, hnull, -, -, t', -, rfl⟩ := deleteCurrent_marker hv hdel
    refine ⟨rfl, ⟨record, removed, hb, ?_, .inr ⟨_, rfl⟩⟩, rfl, rfl, rfl⟩
    cases hver : record.versioning with
    | disabled => exact absurd hver hv
    | enabled =>
      rw [if_pos rfl]
      rw [if_neg fun e => by rw [hn.mp e] at hver; cases hver] at hnull
      exact hnull
    | suspended =>
      rw [if_neg nofun]
      rw [if_pos (hn.mpr hver)] at hnull
      exact hnull

theorem previouslyVisible_of_returns {marker : NewDeleteMarker} {res : DeleteObjectResult}
    (h : Returns (deleteObjectTx env bucket key marker) s res s') :
    res.previouslyVisible = (s.objects[objectKey bucket key]?).isSome := by
  simp only [deleteObjectTx, returns_bind, returns_read, returns_okOr, returns_modify, returns_pure,
    returns_when, exists_and_left, exists_const, exists_eq_left, and_assoc] at h
  obtain ⟨_, -, _, _, -, _, _, -, _, -, rfl, -⟩ := h
  rfl

/-- The delete of an entry that shows a current object: it fails and changes nothing, or it hides the key. -/
theorem delete_object_cases (cfg : Settings) (tick : Tick) (name : BucketName) (s : Catalog) (o : ObjectMetadata) :
    ((Item.object o).delete cfg tick name s).1 = .failed ∧ ((Item.object o).delete cfg tick name s).2 = s ∨
      ∃ b res, s.bucketNames[name.value]? = some b ∧
        Returns (deleteObjectTx cfg.env b.id o.key tick.marker) s res ((Item.object o).delete cfg tick name s).2 ∧
        ((Item.object o).delete cfg tick name s).1 =
          if (s.objects[objectKey b.id o.key]?).isSome then .expired else .absent := by
  unfold Item.delete
  cases hb : s.bucketNames[name.value]? with
  | none => exact .inl ⟨rfl, rfl⟩
  | some b =>
    simp only [Item.deleteIn]
    rcases returns_or_fails (deleteObjectTx cfg.env b.id o.key tick.marker) s with ⟨res, s', h⟩ | ⟨e, h⟩
    · rw [commit_of_returns h]
      refine .inr ⟨b, res, rfl, h, ?_⟩
      simp only [Item.answerObject, previouslyVisible_of_returns h]
    · rw [commit_of_fails h]
      exact .inl ⟨rfl, rfl⟩

/-- The delete of one version: it is held back, fails, or removes exactly that version. -/
theorem delete_version_cases (cfg : Settings) (tick : Tick) (name : BucketName) (s : Catalog)
    (v : ListedObjectVersion) :
    ((Item.version v).delete cfg tick name s).1 ≠ .expired ∧ ((Item.version v).delete cfg tick name s).2 = s ∨
      ∃ b r res, s.bucketNames[name.value]? = some b ∧ s.versions[v.record.versionId.bytes]? = some r ∧
        r.matchesKey b.id v.record.key ∧ ((Item.version v).delete cfg tick name s).1 = .expired ∧
        Returns (removeExactVersion cfg.env b.id v.record.key v.record.versionId (cfg.release tick) r) s res
          ((Item.version v).delete cfg tick name s).2 := by
  unfold Item.delete
  cases hb : s.bucketNames[name.value]? with
  | none => exact .inl ⟨by simp, rfl⟩
  | some b =>
    simp only [Item.deleteIn]
    rcases returns_or_fails (deleteObjectVersionTx cfg.env b.id v.record.key v.record.versionId (cfg.release tick)) s
      with ⟨res, s', h⟩ | ⟨e, h⟩
    · rw [commit_of_returns h]
      simp only [deleteObjectVersionTx, returns_bind, returns_read, exists_and_left, exists_eq_left, and_assoc] at h
      cases hv : s.versions[v.record.versionId.bytes]? with
      | none =>
        rw [hv] at h
        obtain ⟨rfl, rfl⟩ := returns_pure.mp h
        exact .inl ⟨by simp [Item.answerVersion], rfl⟩
      | some r =>
        rw [hv] at h
        simp only [returns_ite, returns_pure, returns_map] at h
        rcases h with ⟨hm, res', rfl, h⟩ | ⟨-, rfl, rfl⟩
        · exact .inr ⟨b, r, res', rfl, rfl, hm, rfl, h⟩
        · exact .inl ⟨by simp [Item.answerVersion], rfl⟩
    · rw [commit_of_fails h]
      refine .inl ⟨?_, rfl⟩
      simp only [Item.answerVersion]
      split <;> simp_all

end Deletes

end RecordStore.Lifecycle

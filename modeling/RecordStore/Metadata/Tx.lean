import RecordStore.Metadata.Catalog

/-!
# Metadata.Tx — the table operations the commands are made of

One definition per helper of `tx.rs`.  A helper that only writes is a function on the catalog, to be
run with `modify`; a helper that can refuse is a transaction.
-/

namespace RecordStore.Metadata

open RecordStore.Lib RecordStore.Core

/-! ## Reads -/

namespace Catalog

variable (s : Catalog)

def readBucket (id : BucketId) : Option Bucket := s.buckets[bucketKey id]?

def readBucketUsage (id : BucketId) : BucketUsage := (s.bucketUsage[bucketKey id]?).getD .zero

def readObjectLock (version : VersionId) : ObjectLockState :=
  (s.objectLocks[lockKey version]?).getD .unlocked

def readCounter (name : String) : UInt64 := (s.counters[name]?).getD 0

def currentVersion (key : Bytes) : Option VersionId :=
  match s.objects[key]? with
  | some metadata => some metadata.versionId
  | none => (s.markers[key]?).map (·.versionId)

/-- The version behind the first entry of `VERSION_ORDER` for the key, newest creation time first. -/
def latestVersion (bucket : BucketId) (key : ObjectKey) : Option ObjectVersionRecord :=
  let start := exactVersionPrefix bucket key
  match s.versionOrder.rowsIn start (prefixSuccessor start) with
  | [] => none
  | (_, id) :: _ => s.versions[id]?

def listParts (id : UploadId) : List UploadedPart :=
  (s.parts.rowsIn id.bytes (prefixSuccessor id.bytes)).map Prod.snd

def hasMultipart (bucket : BucketId) : Bool :=
  !(s.multipartOrder.rowsIn (bucketKey bucket) (prefixSuccessor (bucketKey bucket))).isEmpty

end Catalog

/-! ## Writes -/

namespace Catalog

def writeBucketUsage (id : BucketId) (usage : BucketUsage) (s : Catalog) : Catalog :=
  { s with bucketUsage := s.bucketUsage.insert (bucketKey id) usage }

def insertVersion (r : ObjectVersionRecord) (s : Catalog) : Catalog :=
  { s with
    versions := s.versions.insert r.versionId.bytes r
    versionOrder := s.versionOrder.insert (versionOrderKey r) r.versionId.bytes }

def removeVersion (r : ObjectVersionRecord) (s : Catalog) : Catalog :=
  { s with
    versions := s.versions.erase r.versionId.bytes
    versionOrder := s.versionOrder.erase (versionOrderKey r) }

def setNull (key : Bytes) (id : VersionId) (s : Catalog) : Catalog :=
  { s with nullVersions := s.nullVersions.insert key id.bytes }

def clearNull (key : Bytes) (id : VersionId) (s : Catalog) : Catalog :=
  if s.nullVersions[key]? = some id.bytes then { s with nullVersions := s.nullVersions.erase key }
  else s

def publishCurrent (key : Bytes) (r : ObjectVersionRecord) (s : Catalog) : Catalog :=
  match r with
  | .object metadata _ => { s with objects := s.objects.insert key metadata }
  | .deleteMarker marker _ => { s with markers := s.markers.insert key marker }

def removeCurrent (key : Bytes) (s : Catalog) : Catalog :=
  { s with
    objects := s.objects.erase key
    markers := s.markers.erase key }

def queueCleanup (id : ObjectId) (s : Catalog) : Catalog :=
  { s with cleanup := s.cleanup.insert id.bytes 1 }

/-- Persists Object Lock state, removing the record once nothing is held. -/
def writeObjectLock (version : VersionId) (state : ObjectLockState) (s : Catalog) : Catalog :=
  if state.isUnlocked then { s with objectLocks := s.objectLocks.erase (lockKey version) }
  else { s with objectLocks := s.objectLocks.insert (lockKey version) state }

def removeObjectLock (version : VersionId) (s : Catalog) : Catalog :=
  { s with objectLocks := s.objectLocks.erase (lockKey version) }

end Catalog

/-! ## Operations that can refuse -/

/-- Removes the null index row of the key and resolves the version it named. -/
def takeNull (bucket : BucketId) (key : ObjectKey) : CatalogTx (Option ObjectVersionRecord) := do
  let id ← Tx.read fun s => s.nullVersions[objectKey bucket key]?
  modify fun s => { s with nullVersions := s.nullVersions.erase (objectKey bucket key) }
  match id with
  | none => return none
  | some id =>
    let record ← Tx.read fun s => s.versions[id]?
    let record ← Tx.okOr record (.refused (inconsistentIndex "read null version"))
    return some record

/-- The sum is taken in 128 bits, where it cannot overflow, and must fit 64. -/
def adjustCounter (name : String) (delta : Int) : CatalogTx Unit := do
  let value ← Tx.read fun s => (s.readCounter name).toNat + delta
  Tx.ensure (0 ≤ value ∧ value < 2 ^ 64) (.refused counterError)
  modify fun s => { s with counters := s.counters.insert name (UInt64.ofNat value.toNat) }

/-- Reads the bucket, lets `update` refuse or change it, and writes it to both tables. -/
def updateBucketTx (id : BucketId) (update : Bucket → Except MetadataError Bucket) :
    CatalogTx Bucket := do
  let bucket ← Tx.okOr (← Tx.read fun s => s.readBucket id) (.refused .bucketNotFound)
  match update bucket with
  | .error e => refuse e
  | .ok bucket =>
    modify fun s =>
      { s with
        buckets := s.buckets.insert (bucketKey id) bucket
        bucketNames := s.bucketNames.insert bucket.name.value bucket }
    return bucket

/-- Inputs to any operation that could release a retained version. -/
structure LockRelease where
  observedAt : DateTime
  clockToleranceSeconds : UInt32
  bypassGovernance : Bool
  deriving DecidableEq

/-- Advances the observed-time high-water mark, or reports that it cannot be. -/
def observeClock (release : LockRelease) : CatalogTx Unit := do
  let now := release.observedAt.timestampMicros
  let mark ← Tx.read fun s => s.clock[clockWatermark]?
  let tolerance : Int := release.clockToleranceSeconds.toNat * 1000000
  -- the difference saturates at the smallest representable instant
  Tx.ensure (mark.all fun m => max (m.toInt - tolerance) (-2 ^ 63) ≤ now.toInt) (.refused .clockWentBackwards)
  Tx.when (mark.all fun m => m < now)
    (modify fun s => { s with clock := s.clock.insert clockWatermark now })

/-- Refuses to remove a version that Object Lock still holds. -/
def enforceDeletable (version : VersionId) (release : LockRelease) : CatalogTx Unit := do
  let state ← Tx.read fun s => s.readObjectLock version
  if state.isUnlocked then pure ()
  else do
    observeClock release
    match state.deletionBlockAt release.observedAt with
    | none => pure ()
    | some block =>
      if block.isBypassable ∧ release.bypassGovernance then pure () else refuse (.versionLocked block)

/-- Records a storage event the mutation being committed owes its subscribers. -/
def journalEvent (env : Env) (eventType : StorageEventType) (bucket : String) (key : Option ObjectKey)
    (versionId : Option VersionId) (size : Option UInt64) (occurredAt : DateTime) : CatalogTx Unit := do
  let current ← Tx.read fun s => s.readCounter mutationEventSequence
  Tx.ensure (current.toNat + 1 < 2 ^ 64) (.refused counterError)
  let sequence := current + 1
  let key := key.map (·.value)
  let event : MutationEvent :=
    { sequence, eventType, occurredAt, bucket, key, versionId, size
      eventId := MutationEvent.deriveId env.newV5 sequence eventType occurredAt bucket key versionId }
  modify fun s =>
    { s with
      counters := s.counters.insert mutationEventSequence sequence
      mutationEvents := s.mutationEvents.insert sequence event }

/-- Removes the journal rows up to and including `throughSequence` and returns how many. -/
def pruneMutationEventsTx (throughSequence : UInt64) : CatalogTx UInt64 := do
  let doomed ← Tx.read fun s => (s.mutationEvents.toList.map Prod.fst).filter (· ≤ throughSequence)
  modify fun s => { s with mutationEvents := doomed.foldl (fun t k => t.erase k) s.mutationEvents }
  return doomed.foldl (fun removed _ => saturatingAdd removed 1) 0

end RecordStore.Metadata

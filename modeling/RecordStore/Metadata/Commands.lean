import RecordStore.Metadata.Tx

/-!
# Metadata.Commands — the commands of the catalog

One transaction per command, statement by statement as in `commands.rs`, and `applyCommandTx`, which
dispatches on the command.
-/

namespace RecordStore.Metadata

open RecordStore.Lib RecordStore.Core

/-- A newly generated delete marker supplied by the caller. -/
structure NewDeleteMarker where
  versionId : VersionId
  createdAt : DateTime
  deriving DecidableEq

/-- One deterministic mutation of the durable object catalog. -/
inductive MetadataCommand where
  | createBucket (bucket : Bucket)
  | setBucketVersioning (bucketId : BucketId) (state : VersioningState)
  | setBucketQuota (bucketId : BucketId) (quota : BucketQuota)
  | setBucketCors (bucketId : BucketId) (configuration : Option CorsConfiguration)
  | deleteBucket (name : BucketName) (at_ : DateTime)
  | setBucketObjectLock (bucketId : BucketId) (configuration : ObjectLockConfiguration)
  | putObject (metadata : ObjectMetadata) (objectLock : Option ObjectLockState) (origin : WriteOrigin)
  | deleteObject (bucketId : BucketId) (key : ObjectKey) (marker : NewDeleteMarker)
  | deleteObjectVersion (bucketId : BucketId) (key : ObjectKey) (versionId : VersionId)
      (release : LockRelease)
  | putObjectLock (bucketId : BucketId) (key : ObjectKey) (versionId : VersionId)
      (requested : ObjectLockState) (release : LockRelease)
  | observeClock (release : LockRelease)
  | createMultipartUpload (upload : MultipartUpload)
  | putMultipartPart (part : UploadedPart)
  | beginMultipartCompletion (uploadId : UploadId) (objectId : ObjectId)
  | finishMultipartUpload (uploadId : UploadId)
  | abortMultipartUpload (uploadId : UploadId) (at_ : DateTime)
  | recoverMultipartCompletions
  | putLifecycleRule (rule : LifecycleRule)
  | deleteLifecycleRule (ruleId : LifecycleRuleId)
  | completeCleanup (objectId : ObjectId)
  | pruneMutationEvents (throughSequence : UInt64)
  deriving DecidableEq

/-- Result of applying one metadata command. -/
inductive MetadataOutcome where
  | none
  | bucket (bucket : Bucket)
  | objectCommit (result : ObjectCommitResult)
  | deleteObject (result : DeleteObjectResult)
  | deleteVersion (result : Option DeleteVersionResult)
  | objectLock (state : ObjectLockState)
  | multipartUpload (upload : MultipartUpload)
  | replacedPart (part : Option UploadedPart)
  | multipartCleanup (result : MultipartCleanupResult)
  deriving DecidableEq

/-! ## Buckets -/

/-- `validate().map_err(|error| InvalidObjectLock(error.to_string()))`. -/
def validateObjectLock (c : ObjectLockConfiguration) : Except MetadataError ObjectLockConfiguration :=
  match c.validate with
  | .ok c => .ok c
  | .error e => .error (.invalidObjectLock e.toText)

/-- What a bucket must satisfy before it is created. -/
def checkNewBucket (bucket : Bucket) : Except MetadataError Unit :=
  match bucket.objectLock with
  | none => .ok ()
  | some configuration =>
    match validateObjectLock configuration with
    | .error e => .error e
    | .ok _ => if bucket.versioning = .enabled then .ok () else .error .objectLockRequiresVersioning

def createBucketTx (env : Env) (bucket : Bucket) : CatalogTx Unit := do
  match checkNewBucket bucket with
  | .error e => refuse e
  | .ok _ =>
    let exists_ ← Tx.read fun s =>
      (s.buckets[bucketKey bucket.id]?).isSome || (s.bucketNames[bucket.name.value]?).isSome
    Tx.ensure (exists_ = false) (.refused .bucketAlreadyExists)
    modify fun s => { s with buckets := s.buckets.insert (bucketKey bucket.id) bucket }
    modify fun s => { s with bucketNames := s.bucketNames.insert bucket.name.value bucket }
    modify (Catalog.writeBucketUsage bucket.id .zero)
    journalEvent env .bucketCreated bucket.name.value none none none bucket.createdAt
    adjustCounter bucketCount 1

/-- `SetBucketVersioning`: the change of the record, or why it is refused. -/
def changeVersioning (state : VersioningState) (bucket : Bucket) : Except MetadataError Bucket :=
  if bucket.versioning = .enabled ∧ state = .disabled then .error .invalidVersioningTransition
  else if bucket.objectLock.isSome ∧ state ≠ .enabled then .error .objectLockRequiresVersioning
  else .ok { bucket with versioning := state }

/-- `SetBucketObjectLock`: enabling lock on an existing bucket is refused. -/
def changeObjectLock (configuration : ObjectLockConfiguration) (bucket : Bucket) :
    Except MetadataError Bucket :=
  if bucket.objectLock.isNone then .error .objectLockNotEnabled
  else .ok { bucket with objectLock := some configuration }

def setBucketObjectLockTx (bucketId : BucketId) (configuration : ObjectLockConfiguration) :
    CatalogTx Bucket :=
  match validateObjectLock configuration with
  | .error e => refuse e
  | .ok configuration => updateBucketTx bucketId (changeObjectLock configuration)

def setBucketQuotaTx (bucketId : BucketId) (quota : BucketQuota) : CatalogTx Bucket := do
  let usage ← Tx.read fun s => s.readBucketUsage bucketId
  Tx.ensure (quota.bytes.allows (saturatingAdd usage.versionBytes usage.multipartBytes) ∧
    quota.objects.allows usage.currentObjects) (.refused .quotaExceeded)
  updateBucketTx bucketId fun bucket => .ok { bucket with quota := quota }

def deleteBucketTx (env : Env) (name : BucketName) (at_ : DateTime) : CatalogTx Bucket := do
  let bucket ← Tx.okOr (← Tx.read fun s => s.bucketNames[name.value]?) (.refused .bucketNotFound)
  let busy ← Tx.read fun s => (s.readBucketUsage bucket.id).versions != 0 || s.hasMultipart bucket.id
  Tx.ensure (busy = false) (.refused .bucketNotEmpty)
  modify fun s => { s with bucketNames := s.bucketNames.erase name.value }
  modify fun s => { s with buckets := s.buckets.erase (bucketKey bucket.id) }
  modify fun s => { s with bucketUsage := s.bucketUsage.erase (bucketKey bucket.id) }
  let ids ← Tx.read fun s =>
    (s.lifecycleRules.toList.filter fun row => row.2.bucketId = bucket.id).map Prod.fst
  modify fun s => { s with lifecycleRules := ids.foldl (fun t id => t.erase id) s.lifecycleRules }
  adjustCounter bucketCount (-1)
  journalEvent env .bucketDeleted bucket.name.value none none none at_
  return bucket

/-! ## Objects -/

/-- Refuses to destroy a version that Object Lock still holds. -/
def assertUnlocked (r : ObjectVersionRecord) (now : DateTime) : CatalogTx Unit := do
  let state ← Tx.read fun s => s.readObjectLock r.versionId
  match state.deletionBlockAt now with
  | some block => refuse (.versionLocked block)
  | none => pure ()

/-- The removal of a replaced null version: lock check, lock record, version rows. -/
def removeReplaced (r : ObjectVersionRecord) (now : DateTime) : CatalogTx Unit := do
  assertUnlocked r now
  modify (Catalog.removeObjectLock r.versionId)
  modify (Catalog.removeVersion r)

/-- The lock record a new version is born with. -/
def applyInitialLock (bucket : Bucket) (version : VersionId) (objectLock : Option ObjectLockState) :
    CatalogTx Unit :=
  match objectLock.filter fun state => !state.isUnlocked with
  | none => pure ()
  | some state => do
    Tx.ensure (bucket.objectLock.isSome = true) (.refused .objectLockNotEnabled)
    modify (Catalog.writeObjectLock version state)

/-- The events a published version owes. -/
def putEvents (previous : Option ObjectMetadata) : WriteOrigin → List StorageEventType
  | .multipartCompletion => [.multipartCompleted]
  | .restore => [if previous.isNone then .objectCreated else .objectUpdated, .objectRestored]
  | .direct | .copy => [if previous.isNone then .objectCreated else .objectUpdated]

/-- `map_or(0, |m| m.size)`. -/
def sizeOf? (m : Option ObjectMetadata) : UInt64 := (m.map (·.size)).getD 0

/-- `u64::from(bool)`. -/
def ofBool (b : Bool) : UInt64 := if b then 1 else 0

def putObjectTx (env : Env) (metadata : ObjectMetadata) (objectLock : Option ObjectLockState)
    (origin : WriteOrigin) : CatalogTx ObjectCommitResult := do
  let bucket ← Tx.okOr (← Tx.read fun s => s.readBucket metadata.bucketId) (.refused .bucketNotFound)
  let key := objectKey metadata.bucketId metadata.key
  let previous ← Tx.read fun s => s.objects[key]?
  let isNull : Bool := bucket.versioning ≠ .enabled
  let replaced ← (if isNull then takeNull metadata.bucketId metadata.key else pure none)
  let removedObject := replaced.bind (·.asObject)
  let removedBytes := sizeOf? removedObject
  let usage ← Tx.read fun s => s.readBucketUsage metadata.bucketId
  let proposedObjects ← uncheckedAdd env usage.currentObjects (ofBool previous.isNone)
  let proposedLogical ← Tx.okOr (checkedReplace usage.logicalBytes (sizeOf? previous) metadata.size)
    (.refused counterError)
  let keptVersions ← uncheckedSub env usage.versions (ofBool replaced.isSome)
  let proposedVersions ← uncheckedAdd env keptVersions 1
  let proposedVersionBytes ← Tx.okOr (checkedReplace usage.versionBytes removedBytes metadata.size)
    (.refused counterError)
  Tx.ensure (bucket.quota.bytes.allows (saturatingAdd proposedVersionBytes usage.multipartBytes) ∧
    bucket.quota.objects.allows proposedObjects) (.refused .quotaExceeded)
  replaced.toList.forM fun r => removeReplaced r metadata.createdAt
  modify (Catalog.insertVersion (.object metadata isNull))
  applyInitialLock bucket metadata.versionId objectLock
  Tx.when isNull (modify (Catalog.setNull key metadata.versionId))
  modify fun s => { s with objects := s.objects.insert key metadata }
  modify fun s => { s with markers := s.markers.erase key }
  modify (Catalog.writeBucketUsage metadata.bucketId
    { usage with
      currentObjects := proposedObjects
      logicalBytes := proposedLogical
      versions := proposedVersions
      versionBytes := proposedVersionBytes })
  adjustCounter objectCount (ofBool previous.isNone).toNat
  adjustCounter logicalBytes (metadata.size.toNat - (sizeOf? previous).toNat)
  adjustCounter versionCount (1 - (ofBool replaced.isSome).toNat)
  adjustCounter versionBytes (metadata.size.toNat - removedBytes.toNat)
  adjustCounter physicalBytes (metadata.size.toNat - removedBytes.toNat)
  let cleanup := removedObject.toList
  cleanup.forM fun old => modify (Catalog.queueCleanup old.id)
  (putEvents previous origin).forM fun eventType =>
    journalEvent env eventType bucket.name.value (some metadata.key) (some metadata.versionId)
      (some metadata.size) metadata.createdAt
  return { cleanup }

/-- The removal of the null version by a delete, with its accounting: the usage afterwards and the
payload that became unreachable. -/
def deleteNull (env : Env) (bucket : BucketId) (key : ObjectKey) (now : DateTime) (usage : BucketUsage) :
    CatalogTx (BucketUsage × List ObjectMetadata) := do
  match ← takeNull bucket key with
  | none => return (usage, [])
  | some record =>
    removeReplaced record now
    let versions ← uncheckedSub env usage.versions 1
    adjustCounter versionCount (-1)
    match record.asObject with
    | none => return ({ usage with versions := versions }, [])
    | some metadata =>
      let versionBytes' ← uncheckedSub env usage.versionBytes metadata.size
      adjustCounter versionBytes (-metadata.size.toNat)
      adjustCounter physicalBytes (-metadata.size.toNat)
      modify (Catalog.queueCleanup metadata.id)
      return ({ usage with versions := versions, versionBytes := versionBytes' }, [metadata])

/-- The change of history an ordinary delete makes in each versioning state. -/
def deleteCurrent (env : Env) (versioning : VersioningState) (bucket : BucketId) (key : ObjectKey)
    (marker : NewDeleteMarker) (usage : BucketUsage) :
    CatalogTx (BucketUsage × List ObjectMetadata × Option DeleteMarker) := do
  if versioning = .disabled then
    let (usage, cleanup) ← deleteNull env bucket key marker.createdAt usage
    modify (Catalog.removeCurrent (objectKey bucket key))
    return (usage, cleanup, none)
  else
    let isNull : Bool := versioning = .suspended
    let (usage, cleanup) ←
      (if isNull then deleteNull env bucket key marker.createdAt usage else pure (usage, []))
    let marker : DeleteMarker :=
      { versionId := marker.versionId, bucketId := bucket, key := key, createdAt := marker.createdAt }
    modify (Catalog.insertVersion (.deleteMarker marker isNull))
    Tx.when isNull (modify (Catalog.setNull (objectKey bucket key) marker.versionId))
    modify fun s => { s with objects := s.objects.erase (objectKey bucket key) }
    modify fun s => { s with markers := s.markers.insert (objectKey bucket key) marker }
    let versions ← uncheckedAdd env usage.versions 1
    adjustCounter versionCount 1
    return ({ usage with versions := versions }, cleanup, some marker)

/-- The object that stops being current leaves the bucket's visible totals. -/
def hideCurrent (env : Env) (current : Option ObjectMetadata) (usage : BucketUsage) :
    CatalogTx BucketUsage :=
  match current with
  | none => pure usage
  | some metadata => do
    let currentObjects ← uncheckedSub env usage.currentObjects 1
    let logicalBytes' ← uncheckedSub env usage.logicalBytes metadata.size
    adjustCounter objectCount (-1)
    adjustCounter logicalBytes (-metadata.size.toNat)
    return { usage with currentObjects := currentObjects, logicalBytes := logicalBytes' }

def deleteObjectTx (env : Env) (bucket : BucketId) (key : ObjectKey) (marker : NewDeleteMarker) :
    CatalogTx DeleteObjectResult := do
  let bucketRecord ← Tx.okOr (← Tx.read fun s => s.readBucket bucket) (.refused .bucketNotFound)
  let current ← Tx.read fun s => s.objects[objectKey bucket key]?
  let usage ← Tx.read fun s => s.readBucketUsage bucket
  let (usage, cleanup, deleteMarker) ←
    deleteCurrent env bucketRecord.versioning bucket key marker usage
  let usage ← hideCurrent env current usage
  modify (Catalog.writeBucketUsage bucket usage)
  Tx.when (current.isSome ∨ deleteMarker.isSome)
    (journalEvent env .objectDeleted bucketRecord.name.value (some key)
      (deleteMarker.map (·.versionId)) none marker.createdAt)
  return { deleteMarker, cleanup, previouslyVisible := current.isSome }

/-- The older version that becomes current after the current one is gone joins the visible totals. -/
def promote (env : Env) (bucket : BucketId) (key : ObjectKey) (usage : BucketUsage) :
    CatalogTx BucketUsage := do
  match ← Tx.read fun s => s.latestVersion bucket key with
  | none => return usage
  | some next =>
    modify (Catalog.publishCurrent (objectKey bucket key) next)
    match next.asObject with
    | none => return usage
    | some metadata =>
      let currentObjects ← uncheckedAdd env usage.currentObjects 1
      let logicalBytes' ← uncheckedAdd env usage.logicalBytes metadata.size
      adjustCounter objectCount 1
      adjustCounter logicalBytes metadata.size.toNat
      return { usage with currentObjects := currentObjects, logicalBytes := logicalBytes' }

/-- The key's pointer after its current version was removed. -/
def replaceCurrent (env : Env) (bucket : BucketId) (key : ObjectKey) (usage : BucketUsage) :
    CatalogTx BucketUsage := do
  let current ← Tx.read fun s => s.objects[objectKey bucket key]?
  let usage ← hideCurrent env current usage
  modify (Catalog.removeCurrent (objectKey bucket key))
  promote env bucket key usage

/-- The accounting of a removed version, and its payload queued for cleanup. -/
def dropVersionBytes (env : Env) (record : ObjectVersionRecord) (usage : BucketUsage) :
    CatalogTx BucketUsage := do
  match record.asObject with
  | none => return usage
  | some metadata =>
    let versionBytes' ← uncheckedSub env usage.versionBytes metadata.size
    adjustCounter versionBytes (-metadata.size.toNat)
    adjustCounter physicalBytes (-metadata.size.toNat)
    modify (Catalog.queueCleanup metadata.id)
    return { usage with versionBytes := versionBytes' }

/-- The removal of a version that exists and matches the key. -/
def removeExactVersion (env : Env) (bucket : BucketId) (key : ObjectKey) (version : VersionId)
    (release : LockRelease) (record : ObjectVersionRecord) : CatalogTx DeleteVersionResult := do
  enforceDeletable version release
  let wasCurrent ← Tx.read fun s => s.currentVersion (objectKey bucket key) == some version
  modify (Catalog.removeObjectLock version)
  modify (Catalog.removeVersion record)
  Tx.when record.isNull (modify (Catalog.clearNull (objectKey bucket key) version))
  let usage ← Tx.read fun s => s.readBucketUsage bucket
  let versions ← uncheckedSub env usage.versions 1
  adjustCounter versionCount (-1)
  let usage ← dropVersionBytes env record { usage with versions := versions }
  let usage ← (if wasCurrent then replaceCurrent env bucket key usage else pure usage)
  modify (Catalog.writeBucketUsage bucket usage)
  let bucketRecord ← Tx.read fun s => s.readBucket bucket
  bucketRecord.toList.forM fun bucketRecord =>
    journalEvent env .objectDeleted bucketRecord.name.value (some key) (some version) none
      release.observedAt
  return { removed := record, cleanup := record.asObject }

def deleteObjectVersionTx (env : Env) (bucket : BucketId) (key : ObjectKey) (version : VersionId)
    (release : LockRelease) : CatalogTx (Option DeleteVersionResult) := do
  match ← Tx.read fun s => s.versions[version.bytes]? with
  | none => return none
  | some record =>
    if record.matchesKey bucket key then
      some <$> removeExactVersion env bucket key version release record
    else return none

def putObjectLockTx (bucket : BucketId) (key : ObjectKey) (version : VersionId)
    (requested : ObjectLockState) (release : LockRelease) : CatalogTx ObjectLockState := do
  let bucketRecord ← Tx.okOr (← Tx.read fun s => s.readBucket bucket) (.refused .bucketNotFound)
  Tx.ensure (bucketRecord.objectLock.isSome = true) (.refused .objectLockNotEnabled)
  let record ← Tx.okOr (← Tx.read fun s => s.versions[version.bytes]?)
    (.refused .objectLockVersionNotFound)
  Tx.ensure (record.matchesKey bucket key) (.refused .objectLockVersionNotFound)
  Tx.ensure (record.isDeleteMarker = false) (.refused .objectLockVersionNotFound)
  let current ← Tx.read fun s => s.readObjectLock version
  Tx.when (current.changeOnlyTightens requested = false) (observeClock release)
  match current.withRetention requested.retention release.observedAt release.bypassGovernance with
  | .error reason => refuse (.objectLockChangeRefused reason)
  | .ok updated =>
    let updated := updated.withLegalHold requested.legalHold
    modify (Catalog.writeObjectLock version updated)
    return updated

/-! ## Multipart uploads -/

def createMultipartUploadTx (upload : MultipartUpload) : CatalogTx Unit := do
  let bucket ← Tx.read fun s => s.readBucket upload.bucketId
  Tx.ensure (bucket.isSome = true) (.refused .bucketNotFound)
  let existing ← Tx.read fun s => s.multipart[upload.id.bytes]?
  Tx.ensure (existing.isSome = false) (.refused .multipartStateConflict)
  modify fun s => { s with multipart := s.multipart.insert upload.id.bytes upload }
  modify fun s =>
    { s with multipartOrder := s.multipartOrder.insert (multipartOrderKey upload) upload.id.bytes }

/-- `map_or(0, |p| p.size)`. -/
def partSize? (p : Option UploadedPart) : UInt64 := (p.map (·.size)).getD 0

def putMultipartPartTx (part : UploadedPart) : CatalogTx (Option UploadedPart) := do
  let upload ← Tx.okOr (← Tx.read fun s => s.multipart[part.uploadId.bytes]?)
    (.refused .multipartUploadNotFound)
  Tx.ensure (upload.state = .active) (.refused .multipartStateConflict)
  let bucket ← Tx.okOr (← Tx.read fun s => s.readBucket upload.bucketId) (.refused .bucketNotFound)
  let key := partKey part.uploadId part.number
  let previous ← Tx.read fun s => s.parts[key]?
  let usage ← Tx.read fun s => s.readBucketUsage upload.bucketId
  let proposed ← Tx.okOr (checkedReplace usage.multipartBytes (partSize? previous) part.size)
    (.refused counterError)
  Tx.ensure (bucket.quota.bytes.allows (saturatingAdd usage.versionBytes proposed))
    (.refused .quotaExceeded)
  modify fun s => { s with parts := s.parts.insert key part }
  modify (Catalog.writeBucketUsage upload.bucketId { usage with multipartBytes := proposed })
  adjustCounter multipartBytes (part.size.toNat - (partSize? previous).toNat)
  previous.toList.forM fun old => modify (Catalog.queueCleanup old.objectId)
  return previous

/-- The state an upload is left in by the start of a completion. -/
def beginState (state : MultipartUploadState) (objectId : ObjectId) :
    Except MetadataError MultipartUploadState :=
  match state with
  | .active => .ok (.completing objectId)
  | .completing existing =>
    if existing = objectId then .ok (.completing existing) else .error .multipartStateConflict

def beginMultipartCompletionTx (id : UploadId) (objectId : ObjectId) : CatalogTx MultipartUpload := do
  let upload ← Tx.okOr (← Tx.read fun s => s.multipart[id.bytes]?) (.refused .multipartUploadNotFound)
  match beginState upload.state objectId with
  | .error e => refuse e
  | .ok state =>
    let upload := { upload with state := state }
    modify fun s => { s with multipart := s.multipart.insert id.bytes upload }
    return upload

/-- `try_fold(0, checked_add)`. -/
def totalSize (parts : List UploadedPart) : Option UInt64 :=
  parts.foldlM (fun sum part =>
    if sum.toNat + part.size.toNat < 2 ^ 64 then some (sum + part.size) else none) 0

/-- A bucket's name, or its identifier when the bucket has already gone. -/
def bucketNameOf (s : Catalog) (bucketId : BucketId) : String :=
  match s.readBucket bucketId with
  | none => bucketId.uuid.toText
  | some bucket => bucket.name.value

def removeMultipartTx (env : Env) (id : UploadId) (requireCompleting : Bool) (at_ : DateTime) :
    CatalogTx MultipartCleanupResult := do
  let upload ← Tx.okOr (← Tx.read fun s => s.multipart[id.bytes]?) (.refused .multipartUploadNotFound)
  Tx.ensure (requireCompleting = true → upload.state ≠ .active) (.refused .multipartStateConflict)
  let parts ← Tx.read fun s => s.listParts id
  modify fun s => { s with multipart := s.multipart.erase id.bytes }
  modify fun s => { s with multipartOrder := s.multipartOrder.erase (multipartOrderKey upload) }
  modify fun s =>
    { s with parts := parts.foldl (fun t part => t.erase (partKey id part.number)) s.parts }
  let bytes ← Tx.okOr (totalSize parts) (.refused counterError)
  let usage ← Tx.read fun s => s.readBucketUsage upload.bucketId
  Tx.ensure (bytes ≤ usage.multipartBytes) (.refused counterError)
  modify (Catalog.writeBucketUsage upload.bucketId
    { usage with multipartBytes := usage.multipartBytes - bytes })
  adjustCounter multipartBytes (-bytes.toNat)
  parts.forM fun part => modify (Catalog.queueCleanup part.objectId)
  let name ← Tx.read fun s => bucketNameOf s upload.bucketId
  Tx.when (requireCompleting = false)
    (journalEvent env .multipartAborted name (some upload.key) none none at_)
  return { parts }

/-- One upload that was found completing: finished when its payload is the key's current object, made
active again otherwise. -/
def recoverUpload (env : Env) (upload : MultipartUpload) : CatalogTx (List UploadedPart) := do
  match upload.state with
  | .active => return []
  | .completing objectId =>
    let current ← Tx.read fun s => s.objects[objectKey upload.bucketId upload.key]?
    if current.any fun metadata => metadata.id = objectId then do
      let result ← removeMultipartTx env upload.id true .epoch
      return result.parts
    else do
      modify fun s =>
        { s with multipart := s.multipart.insert upload.id.bytes { upload with state := .active } }
      return []

def isCompleting (upload : MultipartUpload) : Bool := upload.state ≠ .active

def recoverMultipartCompletionsTx (env : Env) : CatalogTx MultipartCleanupResult := do
  let uploads ← Tx.read fun s => s.multipart.rows.filter isCompleting
  let cleaned ← uploads.mapM (recoverUpload env)
  return { parts := cleaned.flatten }

/-! ## Lifecycle rules and cleanup -/

def putLifecycleRuleTx (rule : LifecycleRule) : CatalogTx Unit :=
  match rule.validate with
  | .error e => refuse (.invalidLifecycleRule e.toText)
  | .ok _ => do
    let bucket ← Tx.read fun s => s.readBucket rule.bucketId
    Tx.ensure (bucket.isSome = true) (.refused .bucketNotFound)
    modify fun s => { s with lifecycleRules := s.lifecycleRules.insert rule.id.bytes rule }

def deleteLifecycleRuleTx (id : LifecycleRuleId) : CatalogTx Unit := do
  let existing ← Tx.read fun s => s.lifecycleRules[id.bytes]?
  modify fun s => { s with lifecycleRules := s.lifecycleRules.erase id.bytes }
  Tx.ensure (existing.isSome = true) (.refused .lifecycleRuleNotFound)

def completeCleanupTx (id : ObjectId) : CatalogTx Unit :=
  modify fun s => { s with cleanup := s.cleanup.erase id.bytes }

/-! ## Dispatch -/

/-- Applies one metadata command inside a caller-provided transaction. -/
def applyCommandTx (env : Env) : MetadataCommand → CatalogTx MetadataOutcome
  | .createBucket bucket => do
    createBucketTx env bucket
    return .none
  | .setBucketVersioning bucketId state =>
    .bucket <$> updateBucketTx bucketId (changeVersioning state)
  | .setBucketObjectLock bucketId configuration =>
    .bucket <$> setBucketObjectLockTx bucketId configuration
  | .setBucketQuota bucketId quota => .bucket <$> setBucketQuotaTx bucketId quota
  | .setBucketCors bucketId configuration =>
    .bucket <$> updateBucketTx bucketId fun bucket => .ok { bucket with cors := configuration }
  | .deleteBucket name at_ => .bucket <$> deleteBucketTx env name at_
  | .putObject metadata objectLock origin =>
    .objectCommit <$> putObjectTx env metadata objectLock origin
  | .deleteObject bucketId key marker => .deleteObject <$> deleteObjectTx env bucketId key marker
  | .deleteObjectVersion bucketId key versionId release =>
    .deleteVersion <$> deleteObjectVersionTx env bucketId key versionId release
  | .putObjectLock bucketId key versionId requested release =>
    .objectLock <$> putObjectLockTx bucketId key versionId requested release
  | .observeClock release => do
    observeClock release
    return .none
  | .createMultipartUpload upload => do
    createMultipartUploadTx upload
    return .none
  | .putMultipartPart part => .replacedPart <$> putMultipartPartTx part
  | .beginMultipartCompletion uploadId objectId =>
    .multipartUpload <$> beginMultipartCompletionTx uploadId objectId
  | .finishMultipartUpload uploadId =>
    .multipartCleanup <$> removeMultipartTx env uploadId true .epoch
  | .abortMultipartUpload uploadId at_ =>
    .multipartCleanup <$> removeMultipartTx env uploadId false at_
  | .recoverMultipartCompletions => .multipartCleanup <$> recoverMultipartCompletionsTx env
  | .putLifecycleRule rule => do
    putLifecycleRuleTx rule
    return .none
  | .deleteLifecycleRule ruleId => do
    deleteLifecycleRuleTx ruleId
    return .none
  | .completeCleanup objectId => do
    completeCleanupTx objectId
    return .none
  | .pruneMutationEvents throughSequence => do
    let _ ← pruneMutationEventsTx throughSequence
    return .none

end RecordStore.Metadata

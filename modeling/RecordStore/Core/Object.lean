import RecordStore.Core.ObjectLock

/-!
# Core.Object — buckets, object versions, multipart uploads and events

The records the catalog stores, field by field.
-/

namespace RecordStore.Core

open RecordStore.Lib

/-! ## Buckets and objects -/

/-- A bucket record. -/
structure Bucket where
  id : BucketId
  organizationId : OrganizationId
  name : BucketName
  createdAt : DateTime
  versioning : VersioningState
  quota : BucketQuota
  storageClass : Option StorageClass
  durabilityPolicy : Option DurabilityProfile
  objectLock : Option ObjectLockConfiguration
  cors : Option CorsConfiguration
  deriving DecidableEq

/-- Metadata of one immutable object version; `id` names its payload. -/
structure ObjectMetadata where
  id : ObjectId
  bucketId : BucketId
  key : ObjectKey
  versionId : VersionId
  size : UInt64
  checksum : Checksum
  payloadFormat : PayloadFormat
  durability : DurabilityProfile
  etag : ETag
  contentType : Option String
  customMetadata : Table String String
  createdAt : DateTime
  modifiedAt : DateTime
  deriving DecidableEq

/-- An immutable marker that hides older versions of a key. -/
structure DeleteMarker where
  versionId : VersionId
  bucketId : BucketId
  key : ObjectKey
  createdAt : DateTime
  deriving DecidableEq

/-- One row of the version history.  `isNull` marks the replaceable null version. -/
inductive ObjectVersionRecord where
  | object (metadata : ObjectMetadata) (isNull : Bool)
  | deleteMarker (marker : DeleteMarker) (isNull : Bool)
  deriving DecidableEq

namespace ObjectVersionRecord

def versionId : ObjectVersionRecord → VersionId
  | .object m _ => m.versionId
  | .deleteMarker m _ => m.versionId

/-- The owning bucket. -/
def bucketId : ObjectVersionRecord → BucketId
  | .object m _ => m.bucketId
  | .deleteMarker m _ => m.bucketId

def key : ObjectVersionRecord → ObjectKey
  | .object m _ => m.key
  | .deleteMarker m _ => m.key

def createdAt : ObjectVersionRecord → DateTime
  | .object m _ => m.createdAt
  | .deleteMarker m _ => m.createdAt

def isDeleteMarker : ObjectVersionRecord → Bool
  | .object _ _ => false
  | .deleteMarker _ _ => true

def isNull : ObjectVersionRecord → Bool
  | .object _ n => n
  | .deleteMarker _ n => n

def asObject : ObjectVersionRecord → Option ObjectMetadata
  | .object m _ => some m
  | .deleteMarker _ _ => none

def matchesKey (r : ObjectVersionRecord) (bucket : BucketId) (key : ObjectKey) : Prop :=
  r.bucketId = bucket ∧ r.key = key

instance (r : ObjectVersionRecord) (bucket : BucketId) (key : ObjectKey) :
    Decidable (r.matchesKey bucket key) := inferInstanceAs (Decidable (_ ∧ _))

end ObjectVersionRecord

/-! ## Multipart uploads -/

inductive MultipartUploadState where
  | active
  | completing (objectId : ObjectId)
  deriving DecidableEq

/-- A multipart upload descriptor. -/
structure MultipartUpload where
  id : UploadId
  bucketId : BucketId
  key : ObjectKey
  contentType : Option String
  customMetadata : Table String String
  objectLock : Option ObjectLockState
  initiatedAt : DateTime
  state : MultipartUploadState
  deriving DecidableEq

/-- One durable part; `objectId` names its payload. -/
structure UploadedPart where
  uploadId : UploadId
  number : PartNumber
  objectId : ObjectId
  size : UInt64
  checksum : Checksum
  payloadFormat : PayloadFormat
  etag : ETag
  modifiedAt : DateTime
  deriving DecidableEq

/-! ## Lifecycle rules -/

/-- Restart-safe metadata-driven object expiration rule. -/
structure LifecycleRule where
  id : LifecycleRuleId
  bucketId : BucketId
  keyPrefix : String
  enabled : Bool
  expiration : Option ExpirationDays
  noncurrentVersionExpiration : Option ExpirationDays
  createdAt : DateTime
  updatedAt : DateTime
  deriving DecidableEq

/-- `validate`: rejects no-op rules and unreasonably large prefixes. -/
def LifecycleRule.validate (r : LifecycleRule) : Except CoreError Unit :=
  if r.keyPrefix.utf8ByteSize > 1024 then
    .error (.invalidLifecycleRule "prefix exceeds the maximum object-key length")
  else if r.expiration = none ∧ r.noncurrentVersionExpiration = none then
    .error (.invalidLifecycleRule "at least one expiration action is required")
  else .ok ()

/-! ## Storage events -/

/-- Stable storage-event names intended for integrations. -/
inductive StorageEventType where
  | bucketCreated
  | bucketDeleted
  | objectCreated
  | objectUpdated
  | objectDeleted
  | objectRestored
  | multipartCompleted
  | multipartAborted
  deriving DecidableEq

def StorageEventType.asStr : StorageEventType → String
  | .bucketCreated => "bucket.created"
  | .bucketDeleted => "bucket.deleted"
  | .objectCreated => "object.created"
  | .objectUpdated => "object.updated"
  | .objectDeleted => "object.deleted"
  | .objectRestored => "object.restored"
  | .multipartCompleted => "multipart.completed"
  | .multipartAborted => "multipart.aborted"

/-- Why a version was written. -/
inductive WriteOrigin where
  | direct
  | copy
  | multipartCompletion
  | restore
  deriving DecidableEq

/-- One storage event a committed mutation owes, as recorded in the catalog. -/
structure MutationEvent where
  sequence : UInt64
  eventId : EventId
  eventType : StorageEventType
  occurredAt : DateTime
  bucket : String
  key : Option String
  versionId : Option VersionId
  size : Option UInt64
  deriving DecidableEq

namespace MutationEvent

/-- `EVENT_NAMESPACE`. -/
def eventNamespace : Uuid where
  bytes := [0x1f, 0x4a, 0x9c, 0x2e, 0x7b, 0x63, 0x4d, 0x18, 0x9a, 0x05, 0xc7, 0x3e, 0x51, 0x88, 0x2d, 0x60]
  length_bytes := rfl

/-- `derive_id`: the identifier is a version 5 UUID (`newV5`) of the content that defines the event. -/
def deriveId (newV5 : Uuid → Bytes → Uuid) (sequence : UInt64) (eventType : StorageEventType)
    (occurredAt : DateTime) (bucket : String) (key : Option String) (versionId : Option VersionId) :
    EventId :=
  let material := beBytes 8 sequence.toNat ++ asBytes eventType.asStr ++ [0] ++
    beBytes 8 occurredAt.timestampMicros.toUInt64.toNat ++ asBytes bucket ++ [0] ++
    (key.map asBytes).getD [] ++ [0] ++ (versionId.map Id.bytes).getD []
  ⟨newV5 eventNamespace material⟩

end MutationEvent

end RecordStore.Core

import RecordStore.Lib.Bytes

/-!
# Core.Values — identifiers, time, names and limits

The small domain values of the store.  A value with a validating constructor carries the proof that
it passed: an `ObjectKey` has no control character, so none of its bytes is `0`, which is what the
composite keys of the catalog rely on.
-/

namespace RecordStore.Core

open RecordStore.Lib

/-! ## Errors of domain values -/

/-- Errors raised while constructing or operating on core domain values. -/
inductive CoreError where
  | invalidIdentifier (kind reason : String)
  | invalidBucketName (reason : String)
  | invalidObjectKey (reason : String)
  | invalidChecksum (reason : String)
  | invalidETag (reason : String)
  | invalidPartNumber (reason : String)
  | invalidLifecycleRule (reason : String)
  | invalidByteRange (reason : String)
  | invalidErasureProfile (reason : String)
  | invalidReplicationProfile (reason : String)
  | invalidObjectLock (reason : String)
  | invalidCorsRule (reason : String)
  | invalidStorageClass (reason : String)
  deriving DecidableEq

/-- `Display`. -/
def CoreError.toText : CoreError → String
  | .invalidIdentifier kind reason => "invalid " ++ kind ++ " identifier: " ++ reason
  | .invalidBucketName reason => "invalid bucket name: " ++ reason
  | .invalidObjectKey reason => "invalid object key: " ++ reason
  | .invalidChecksum reason => "invalid checksum: " ++ reason
  | .invalidETag reason => "invalid ETag: " ++ reason
  | .invalidPartNumber reason => "invalid multipart part number: " ++ reason
  | .invalidLifecycleRule reason => "invalid lifecycle rule: " ++ reason
  | .invalidByteRange reason => "invalid byte range: " ++ reason
  | .invalidErasureProfile reason => "invalid erasure profile: " ++ reason
  | .invalidReplicationProfile reason => "invalid replication profile: " ++ reason
  | .invalidObjectLock reason => "invalid object lock: " ++ reason
  | .invalidCorsRule reason => "invalid CORS rule: " ++ reason
  | .invalidStorageClass reason => "invalid storage class: " ++ reason

/-! ## Identifiers -/

/-- A UUID as its sixteen bytes. -/
@[ext] structure Uuid where
  bytes : Bytes
  length_bytes : bytes.length = 16
  deriving DecidableEq

namespace Uuid

/-- The UUID whose last bytes are those of `n`. -/
def ofNat (n : Nat) : Uuid := ⟨beBytes 16 n, length_beBytes 16 n⟩

/-- `Display`: lower-case hexadecimal in groups of 8, 4, 4, 4 and 12 digits. -/
def toText (u : Uuid) : String :=
  let hex := hexDigits u.bytes
  String.ofList (hex.take 8 ++ ['-'] ++ (hex.drop 8).take 4 ++ ['-'] ++ (hex.drop 12).take 4 ++ ['-'] ++
    (hex.drop 16).take 4 ++ ['-'] ++ hex.drop 20)

/-- `simple()`: the hexadecimal digits alone. -/
def simple (u : Uuid) : String := hexEncode u.bytes

end Uuid

/-- The kinds of identifiers the catalogs store. -/
inductive IdKind where
  | bucket
  | object
  | version
  | upload
  | organization
  | event
  | lifecycleRule
  | node
  | device
  | replicaTask
  | clusterOperation
  | cluster
  | joinToken
  | nodeCredential
  | stripe
  | shard
  deriving DecidableEq

/-- A strongly typed identifier. -/
@[ext] structure Id (kind : IdKind) where
  uuid : Uuid
  deriving DecidableEq

instance Id.lawfulBEq {kind : IdKind} : LawfulBEq (Id kind) := inferInstance

abbrev BucketId := Id .bucket
abbrev ObjectId := Id .object
abbrev VersionId := Id .version
abbrev UploadId := Id .upload
abbrev OrganizationId := Id .organization
abbrev EventId := Id .event
abbrev LifecycleRuleId := Id .lifecycleRule
abbrev NodeId := Id .node
abbrev DeviceId := Id .device
abbrev ReplicaTaskId := Id .replicaTask
abbrev ClusterOperationId := Id .clusterOperation
abbrev ClusterId := Id .cluster
abbrev JoinTokenId := Id .joinToken
abbrev NodeCredentialId := Id .nodeCredential

/-- `as_uuid().as_bytes()`. -/
def Id.bytes {kind : IdKind} (id : Id kind) : Bytes := id.uuid.bytes

/-- The identifier numbered `n`. -/
def Id.ofNat {kind : IdKind} (n : Nat) : Id kind := ⟨Uuid.ofNat n⟩

@[simp] theorem Id.length_bytes {kind : IdKind} (id : Id kind) : id.bytes.length = 16 :=
  id.uuid.length_bytes

theorem Id.bytes_inj {kind : IdKind} {a b : Id kind} : a.bytes = b.bytes ↔ a = b :=
  ⟨fun h => Id.ext (Uuid.ext h), fun h => h ▸ rfl⟩

/-! ## Machine integers -/

/-- `saturating_add`. -/
def saturatingAdd (a b : UInt64) : UInt64 :=
  if a.toNat + b.toNat < 2 ^ 64 then a + b else 0xffffffffffffffff

theorem saturatingAdd_toNat (a b : UInt64) : (saturatingAdd a b).toNat = min (a.toNat + b.toNat) (2 ^ 64 - 1) := by
  unfold saturatingAdd
  split_ifs with h
  · rw [UInt64.toNat_add, Nat.mod_eq_of_lt h]
    omega
  · simp only [UInt64.reduceToNat]
    omega

/-! ## Time -/

/-- A UTC instant: whole seconds since the epoch and the nanoseconds after them.  A leap second is
the second before it with a fraction of one second or more. -/
@[ext] structure DateTime where
  seconds : Int
  nanoseconds : Nat
  seconds_range : -8334601228800 ≤ seconds ∧ seconds ≤ 8210266876799
  nanoseconds_lt : nanoseconds < 2000000000
  deriving DecidableEq

namespace DateTime

/-- The epoch, which is also the default. -/
def epoch : DateTime := ⟨0, 0, by decide, by decide⟩

/-- So many seconds after the epoch. -/
def ofSeconds (seconds : UInt32) : DateTime :=
  ⟨seconds.toNat, 0, by have := seconds.toNat_lt; omega, epoch.nanoseconds_lt⟩

/-- `timestamp_micros`: exact, since the representable range fits. -/
def timestampMicros (t : DateTime) : Int64 := Int64.ofInt (t.seconds * 1000000 + (t.nanoseconds / 1000 : Nat))

/-- `timestamp_micros().max(0) as u64`. -/
def clampedMicros (t : DateTime) : UInt64 := (max t.timestampMicros 0).toUInt64

instance : LE DateTime where
  le a b := a.seconds < b.seconds ∨ (a.seconds = b.seconds ∧ a.nanoseconds ≤ b.nanoseconds)

instance (a b : DateTime) : Decidable (a ≤ b) :=
  inferInstanceAs (Decidable (_ ∨ _))

theorem le_refl (a : DateTime) : a ≤ a := .inr ⟨rfl, Nat.le_refl _⟩

end DateTime

/-! ## Names -/

/-- The segments of a text between the separators `c`. -/
def segments (c : Char) (l : List Char) : List (List Char) := l.splitOn c

/-- `char::is_control`: the general category Cc. -/
def isControl (c : Char) : Bool := c.toNat < 0x20 || (0x7f ≤ c.toNat && c.toNat < 0xa0)

/-- Whether the text parses as a dotted-decimal IPv4 address. -/
def isIpv4 (l : List Char) : Bool :=
  let parts := segments '.' l
  parts.length == 4 && parts.all fun p =>
    !p.isEmpty && p.length ≤ 3 && p.all Char.isDigit && (p.length == 1 || p.head? != some '0') &&
      p.foldl (fun n c => 10 * n + (c.toNat - 48)) 0 ≤ 255

def validateBucketName (value : String) : Except CoreError Unit :=
  let l := value.toList
  if ¬ (3 ≤ value.utf8ByteSize ∧ value.utf8ByteSize ≤ 63) then
    .error (.invalidBucketName "name must contain between 3 and 63 bytes")
  else if !(l.head?.any Char.isAlphanum) || !(l.getLast?.any Char.isAlphanum) then
    .error (.invalidBucketName "name must begin and end with a letter or digit")
  else if !(l.all fun c => c.isLower || c.isDigit || c == '-' || c == '.') then
    .error (.invalidBucketName "only lowercase letters, digits, hyphens, and periods are permitted")
  else if (l.zip l.tail).contains ('.', '.') then
    .error (.invalidBucketName "adjacent periods are not permitted")
  else if isIpv4 l then
    .error (.invalidBucketName "IP address notation is not permitted")
  else if "xn--".toList.isPrefixOf l || "sthree-".toList.isPrefixOf l || "-s3alias".toList.isSuffixOf l ||
      "--ol-s3".toList.isSuffixOf l || value == "record-store-system" || value == "record-store-internal" then
    .error (.invalidBucketName "name uses a reserved prefix, suffix, or internal name")
  else .ok ()

/-- A validated S3-compatible bucket name. -/
@[ext] structure BucketName where
  value : String
  valid : validateBucketName value = .ok ()

instance : DecidableEq BucketName := fun a b =>
  decidable_of_iff (a.value = b.value) BucketName.ext_iff.symm

/-- `ObjectKey::validate`. -/
def validateObjectKey (value : String) : Except CoreError Unit :=
  let l := value.toList
  if l.isEmpty then .error (.invalidObjectKey "key must not be empty")
  else if value.utf8ByteSize > 1024 then .error (.invalidObjectKey "key exceeds 1024 bytes")
  else if l.head? = some '/' then .error (.invalidObjectKey "key must not begin with a slash")
  else if l.contains '\\' then .error (.invalidObjectKey "backslashes are not permitted")
  else if l.any isControl then .error (.invalidObjectKey "control characters are not permitted")
  else if (segments '/' l).any fun p => p.isEmpty || p == ['.'] || p == ['.', '.'] then
    .error (.invalidObjectKey "empty, '.' and '..' path segments are not permitted")
  else .ok ()

/-- A validated logical key.  Keys are never interpreted as filesystem paths. -/
@[ext] structure ObjectKey where
  value : String
  valid : validateObjectKey value = .ok ()

instance : DecidableEq ObjectKey := fun a b =>
  decidable_of_iff (a.value = b.value) ObjectKey.ext_iff.symm

namespace ObjectKey

/-- `as_str().as_bytes()`. -/
def bytes (k : ObjectKey) : Bytes := asBytes k.value

theorem bytes_inj {a b : ObjectKey} (h : a.bytes = b.bytes) : a = b := ObjectKey.ext (asBytes_inj h)

theorem not_isControl {k : ObjectKey} {c : Char} (hc : c ∈ k.value.toList) : isControl c = false := by
  have h := k.valid
  simp only [validateObjectKey] at h
  split_ifs at h with h1 h2 h3 h4 h5 h6
  rw [List.any_eq_true] at h5
  by_contra hn
  exact h5 ⟨c, hc, by simpa using hn⟩

/-- No byte of a key is `0` or `0xff`. -/
theorem byte_ne {k : ObjectKey} {b : UInt8} (h : b ∈ k.bytes) : b ≠ 0 ∧ b ≠ 255 := by
  suffices hb : b.toNat ≠ 0 ∧ b.toNat ≠ 255 from
    ⟨fun e => hb.1 (e ▸ rfl), fun e => hb.2 (e ▸ rfl)⟩
  rcases mem_asBytes h with ⟨c, hc, hbc, hlt⟩ | hb
  · have hctl := not_isControl hc
    simp only [isControl, Bool.or_eq_false_iff, decide_eq_false_iff_not] at hctl
    omega
  · omega

end ObjectKey

/-! ## Numbers with a range -/

/-- An S3 multipart part number: one-based and capped at 10,000. -/
@[ext] structure PartNumber where
  get : UInt16
  range : 1 ≤ get ∧ get ≤ 10000
  deriving DecidableEq

/-- A bounded lifecycle age in whole days. -/
@[ext] structure ExpirationDays where
  get : UInt32
  range : 1 ≤ get ∧ get ≤ 36500
  deriving DecidableEq

/-! ## Limits -/

/-- Bucket versioning. -/
inductive VersioningState where
  | disabled
  | enabled
  | suspended
  deriving DecidableEq

/-- A limit on bytes or on objects: `ByteQuota` and `ObjectCountQuota`. -/
inductive Quota where
  | unlimited
  | limit (value : UInt64)
  deriving DecidableEq

abbrev ByteQuota := Quota
abbrev ObjectCountQuota := Quota

def Quota.allows : Quota → UInt64 → Bool
  | .unlimited, _ => true
  | .limit value, proposed => proposed ≤ value

structure BucketQuota where
  bytes : ByteQuota
  objects : ObjectCountQuota
  deriving DecidableEq

/-! ## Integrity, durability and browser access -/

inductive ChecksumAlgorithm where
  | sha256
  deriving DecidableEq

/-- A content checksum with an explicit algorithm discriminator. -/
structure Checksum where
  algorithm : ChecksumAlgorithm
  digest : Bytes
  length_digest : digest.length = 32
  deriving DecidableEq

/-- `ETag::new`: 1 to 128 visible ASCII characters, no quote. -/
def validETag (value : String) : Bool :=
  !value.toList.isEmpty && value.utf8ByteSize ≤ 128 &&
    value.toList.all fun c => 0x21 ≤ c.toNat && c.toNat ≤ 0x7e && c != '"'

/-- A stable protocol-facing entity tag, stored without HTTP quote characters. -/
structure ETag where
  value : String
  valid : validETag value = true
  deriving DecidableEq

/-- How the bytes of a payload file are encoded. -/
inductive PayloadFormat where
  | plaintext
  | aes256GcmEnvelopeV1
  deriving DecidableEq

/-- A requested byte range: an offset and a length that is not zero. -/
structure ByteRange where
  offset : UInt64
  length : UInt64
  length_ne_zero : length ≠ 0
  no_overflow : offset.toNat + length.toNat < 2 ^ 64

/-- A range clipped to an object's size. -/
structure ResolvedByteRange where
  offset : UInt64
  length : UInt64
  deriving DecidableEq

def ByteRange.resolve (r : ByteRange) (objectSize : UInt64) : Except CoreError ResolvedByteRange :=
  if objectSize ≤ r.offset then .error (.invalidByteRange "range starts at or beyond the end of the object")
  else .ok ⟨r.offset, min r.length (objectSize - r.offset)⟩

/-- A systematic Reed-Solomon profile of at most 32 shards. -/
structure ErasureProfile where
  dataShards : UInt8
  parityShards : UInt8
  valid : dataShards ≠ 0 ∧ parityShards ≠ 0 ∧ dataShards.toNat + parityShards.toNat ≤ 32
  deriving DecidableEq

/-- The replica count and acknowledgement threshold used by one payload. -/
structure ReplicationProfile where
  replicas : UInt8
  requiredAcknowledgements : UInt8
  valid : replicas ≠ 0 ∧ requiredAcknowledgements ≠ 0 ∧ requiredAcknowledgements ≤ replicas
  deriving DecidableEq

/-- Physical durability actually committed for one immutable object version. -/
inductive DurabilityProfile where
  | single
  | replicated (profile : ReplicationProfile)
  | erasureCoded (profile : ErasureProfile)
  deriving DecidableEq

/-- `StorageClass::new`: 1 to 32 lowercase letters, digits and hyphens. -/
def validStorageClass (value : String) : Bool :=
  !value.toList.isEmpty && value.utf8ByteSize ≤ 32 &&
    value.toList.all fun c => c.isLower || c.isDigit || c == '-'

/-- A validated storage-class label. -/
structure StorageClass where
  value : String
  valid : validStorageClass value = true
  deriving DecidableEq

/-- A bucket's browser access configuration, as it is stored. -/
structure CorsConfiguration where
  encoded : Bytes
  deriving DecidableEq

end RecordStore.Core

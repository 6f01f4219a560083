import RecordStore.Lib.Tx
import RecordStore.Metadata.Keys

/-!
# Metadata.Catalog — the tables of the durable catalog

The eighteen tables of the catalog with the rows they hold, the errors its operations end with, and
the environment that a build fixes.  Stored values are the records themselves: every write encodes a
record that a later read decodes, and the encoding itself is the subject of `Metadata.Snapshot`.
-/

namespace RecordStore.Metadata

open RecordStore.Lib RecordStore.Core

/-! ## Errors -/

/-- Stable metadata failure categories. -/
inductive MetadataError where
  | directory (reason : String)
  | bucketAlreadyExists
  | bucketNotFound
  | bucketNotEmpty
  | multipartUploadNotFound
  | multipartStateConflict
  | quotaExceeded
  | invalidVersioningTransition
  | versionLocked (block : LockBlock)
  | clockWentBackwards
  | objectLockNotEnabled
  | objectLockNotEnabledAtCreation
  | objectLockRequiresVersioning
  | objectLockVersionNotFound
  | objectLockChangeRefused (reason : LockChangeRefused)
  | invalidObjectLock (reason : String)
  | lifecycleRuleNotFound
  | invalidLifecycleRule (reason : String)
  | encoding (reason : String)
  | database (operation reason : String)
  | task (reason : String)
  deriving DecidableEq

/-- `Display`. -/
def MetadataError.toText : MetadataError → String
  | .directory reason => "failed to prepare metadata directory: " ++ reason
  | .bucketAlreadyExists => "bucket already exists"
  | .bucketNotFound => "bucket was not found"
  | .bucketNotEmpty => "bucket is not empty"
  | .multipartUploadNotFound => "multipart upload was not found"
  | .multipartStateConflict => "multipart upload state conflicts with the operation"
  | .quotaExceeded => "storage quota exceeded"
  | .invalidVersioningTransition => "invalid bucket versioning transition"
  | .versionLocked block => "object version is held by " ++ block.label
  | .clockWentBackwards => "the system clock is behind the recorded high-water mark"
  | .objectLockNotEnabled => "object lock is not enabled on this bucket"
  | .objectLockNotEnabledAtCreation => "object lock cannot be enabled on an existing bucket"
  | .objectLockRequiresVersioning => "bucket versioning cannot be suspended while object lock is enabled"
  | .objectLockVersionNotFound => "object lock version was not found"
  | .objectLockChangeRefused reason => "object lock change refused: " ++ reason.label
  | .invalidObjectLock reason => "invalid object lock: " ++ reason
  | .lifecycleRuleNotFound => "lifecycle rule was not found"
  | .invalidLifecycleRule reason => "invalid lifecycle rule: " ++ reason
  | .encoding reason => "metadata encoding failed: " ++ reason
  | .database operation reason =>
    "metadata database operation '" ++ operation ++ "' failed: " ++ reason
  | .task reason => "metadata task failed: " ++ reason

def counterError : MetadataError := .database "adjust counter" "counter overflow or underflow"

def inconsistentIndex (operation : String) : MetadataError := .database operation "inconsistent index"

/-- The unchecked machine operations of the commands. -/
inductive Arithmetic where
  | add
  | subtract
  deriving DecidableEq

/-- How a command that does not succeed ends: it returns an error, or, in a build with overflow checks,
it panics at an unchecked operation. -/
inductive Failure where
  | refused (error : MetadataError)
  | panicked (operation : Arithmetic)
  deriving DecidableEq

/-! ## Rows -/

/-- Per-bucket accounting. -/
structure BucketUsage where
  currentObjects : UInt64
  logicalBytes : UInt64
  versions : UInt64
  versionBytes : UInt64
  multipartBytes : UInt64
  deriving DecidableEq

/-- The default: an empty bucket. -/
def BucketUsage.zero : BucketUsage := ⟨0, 0, 0, 0, 0⟩

/-- Publication result naming only payloads that became unreachable. -/
structure ObjectCommitResult where
  cleanup : List ObjectMetadata
  deriving DecidableEq

/-- Result of applying an ordinary delete. -/
structure DeleteObjectResult where
  deleteMarker : Option DeleteMarker
  cleanup : List ObjectMetadata
  previouslyVisible : Bool
  deriving DecidableEq

/-- Result of permanently deleting an explicit version. -/
structure DeleteVersionResult where
  removed : ObjectVersionRecord
  cleanup : Option ObjectMetadata
  deriving DecidableEq

/-- Multipart state removed after completion or abort. -/
structure MultipartCleanupResult where
  parts : List UploadedPart
  deriving DecidableEq

/-! ## Tables -/

/-- The tables of `schema.rs`. -/
structure Catalog where
  buckets : Table Bytes Bucket
  bucketNames : Table String Bucket
  objects : Table Bytes ObjectMetadata
  markers : Table Bytes DeleteMarker
  versions : Table Bytes ObjectVersionRecord
  versionOrder : Table Bytes Bytes
  nullVersions : Table Bytes Bytes
  multipart : Table Bytes MultipartUpload
  multipartOrder : Table Bytes Bytes
  parts : Table Bytes UploadedPart
  cleanup : Table Bytes UInt8
  bucketUsage : Table Bytes BucketUsage
  lifecycleRules : Table Bytes LifecycleRule
  objectLocks : Table Bytes ObjectLockState
  mutationEvents : Table UInt64 MutationEvent
  counters : Table String UInt64
  clock : Table String Int64
  schema : Table String UInt64
  deriving DecidableEq

def clockWatermark : String := "observed_high_water_mark"
def currentSchemaVersion : UInt64 := 6
def objectCount : String := "objects"
def bucketCount : String := "buckets"
def logicalBytes : String := "logical_bytes"
def versionCount : String := "versions"
def versionBytes : String := "version_bytes"
def physicalBytes : String := "physical_bytes"
def multipartBytes : String := "multipart_bytes"
def mutationEventSequence : String := "mutation_event_sequence"

/-- What `initialize_schema` leaves in a new database: the migrations find no row to rewrite and write
the seven counters and the schema version. -/
def Catalog.empty : Catalog where
  buckets := ∅
  bucketNames := ∅
  objects := ∅
  markers := ∅
  versions := ∅
  versionOrder := ∅
  nullVersions := ∅
  multipart := ∅
  multipartOrder := ∅
  parts := ∅
  cleanup := ∅
  bucketUsage := ∅
  lifecycleRules := ∅
  objectLocks := ∅
  mutationEvents := ∅
  counters := [objectCount, bucketCount, logicalBytes, versionCount, versionBytes, physicalBytes,
    multipartBytes].foldl (fun t name => t.insert name 0) ∅
  clock := ∅
  schema := (∅ : Table String UInt64).insert "metadata" currentSchemaVersion

/-- What the build and its dependencies fix: whether unchecked arithmetic panics on overflow, and the
version 5 UUID function. -/
structure Env where
  overflowChecks : Bool
  newV5 : Uuid → Bytes → Uuid

/-- A computation inside one write transaction of the catalog. -/
abbrev CatalogTx := Tx Catalog Failure

/-- `Err(error)`. -/
def refuse {α : Type} (error : MetadataError) : CatalogTx α := throw (.refused error)

/-- `a - b` on `u64`: panics with overflow checks, wraps without. -/
def uncheckedSub (env : Env) (a b : UInt64) : CatalogTx UInt64 := do
  Tx.ensure (env.overflowChecks = true → b ≤ a) (.panicked .subtract)
  return a - b

/-- `a + b` on `u64`: panics with overflow checks, wraps without. -/
def uncheckedAdd (env : Env) (a b : UInt64) : CatalogTx UInt64 := do
  Tx.ensure (env.overflowChecks = true → a.toNat + b.toNat < 2 ^ 64) (.panicked .add)
  return a + b

/-- `checked_sub(b).and_then(|v| v.checked_add(c))`. -/
def checkedReplace (a b c : UInt64) : Option UInt64 :=
  if b ≤ a ∧ (a - b).toNat + c.toNat < 2 ^ 64 then some (a - b + c) else none

end RecordStore.Metadata

import RecordStore.Metadata.Commands

/-!
# Consensus.Command — the replicated command and response types

The log carries catalog commands, cluster commands and batches of both.  A command the application rules
refuse is answered with a rejection: a category and a text, from which the caller's node rebuilds an
error.  The cluster's own state is a parameter here: what the state machine needs of it is how a command
is applied, which errors mean that storage is broken, and how the others are classified.
-/

namespace RecordStore.Consensus

open RecordStore.Lib RecordStore.Metadata

/-! ## Rejections -/

/-- Stable rejection categories. -/
inductive RejectionKind where
  | bucketAlreadyExists
  | bucketNotFound
  | bucketNotEmpty
  | multipartUploadNotFound
  | multipartStateConflict
  | quotaExceeded
  | invalidVersioningTransition
  | lifecycleRuleNotFound
  | invalidLifecycleRule
  | clusterNotInitialized
  | clusterAlreadyInitialized
  | nodeNotFound
  | placementNotFound
  | replicaNotFound
  | tombstoneNotFound
  | taskNotFound
  | operationNotFound
  | joinTokenNotFound
  | credentialNotFound
  | invalidTransition
  | invalidConfiguration
  | internal
  deriving DecidableEq

/-- Why a replicated command was rejected without changing state. -/
structure CommandRejection where
  kind : RejectionKind
  message : String
  deriving DecidableEq

/-- Reconstructs the equivalent object-catalog error. -/
def CommandRejection.intoMetadataError (r : CommandRejection) : MetadataError :=
  match r.kind with
  | .bucketAlreadyExists => .bucketAlreadyExists
  | .bucketNotFound => .bucketNotFound
  | .bucketNotEmpty => .bucketNotEmpty
  | .multipartUploadNotFound => .multipartUploadNotFound
  | .multipartStateConflict => .multipartStateConflict
  | .quotaExceeded => .quotaExceeded
  | .invalidVersioningTransition => .invalidVersioningTransition
  | .lifecycleRuleNotFound => .lifecycleRuleNotFound
  | .invalidLifecycleRule => .invalidLifecycleRule r.message
  | _ => .database "replicated metadata command" r.message

/-- Classifies an object-catalog error for replication. -/
def classifyMetadataError (e : MetadataError) : CommandRejection where
  kind :=
    match e with
    | .bucketAlreadyExists => .bucketAlreadyExists
    | .bucketNotFound => .bucketNotFound
    | .bucketNotEmpty => .bucketNotEmpty
    | .multipartUploadNotFound => .multipartUploadNotFound
    | .multipartStateConflict => .multipartStateConflict
    | .quotaExceeded => .quotaExceeded
    | .invalidVersioningTransition => .invalidVersioningTransition
    | .lifecycleRuleNotFound => .lifecycleRuleNotFound
    | .invalidLifecycleRule _ => .invalidLifecycleRule
    | _ => .internal
  message := e.toText

/-- A catalog error that means the state machine itself is broken. -/
def isDurableMetadataFailure : MetadataError → Bool
  | .directory _ | .database _ _ | .task _ => true
  | _ => false

/-! ## Writes and responses -/

/-- One replicated write. -/
inductive ClusterWrite (γ : Type) where
  | metadata (command : MetadataCommand)
  | cluster (command : γ)
  -- several mutations that must commit or fail together
  | batch (writes : List (ClusterWrite γ))
  | noop

/-- The result of applying one replicated write. -/
inductive ClusterWriteResponse (ο : Type) where
  | metadata (outcome : MetadataOutcome)
  | cluster (outcome : ο)
  | batch (responses : List (ClusterWriteResponse ο))
  | noop
  | rejected (rejection : CommandRejection)

namespace ClusterWriteResponse

variable {ο : Type}

def name : ClusterWriteResponse ο → String
  | metadata _ => "metadata"
  | cluster _ => "cluster"
  | batch _ => "batch"
  | noop => "noop"
  | rejected _ => "rejected"

/-- The object-catalog outcome, or the rejection as an error.  A batch of one is transparent. -/
def intoMetadata : ClusterWriteResponse ο → Except MetadataError MetadataOutcome
  | metadata outcome => .ok outcome
  | rejected rejection => .error rejection.intoMetadataError
  | batch [response] => response.intoMetadata
  | other =>
    .error (.database "decode replicated response" ("expected an object-catalog outcome, received " ++ other.name))

end ClusterWriteResponse

/-! ## The cluster's part -/

/-- What the state machine uses of the cluster catalog: state `κ`, commands `γ`, outcomes `ο`, errors `χ`. -/
structure ClusterLogic (κ γ ο χ : Type) where
  apply : γ → Tx κ χ ο
  isDurable : χ → Bool
  classify : χ → CommandRejection
  toText : χ → String

end RecordStore.Consensus

import RecordStore.Consensus.Command

/-!
# Consensus.StateMachine — applying the replicated log

`StateMachineStore::apply` and the functions under it.  Every entry is applied in one transaction over one
database, which also holds the applied log position.  A write that is rejected may have written before:
its transaction is dropped, and a second one advances the position alone.
-/

namespace RecordStore.Consensus

open RecordStore.Lib RecordStore.Metadata Tx

/-! ## The durable state -/

structure LogId where
  term : UInt64
  node : UInt64
  index : UInt64
  deriving DecidableEq

/-- The membership that was last applied and the entry that brought it. -/
structure StoredMembership (μ : Type) where
  logId : Option LogId
  membership : μ

/-- The two catalogs. -/
structure Data (κ : Type) where
  catalog : Catalog
  cluster : κ

/-- Everything in a member's database. -/
structure Replicated (κ μ : Type) where
  data : Data κ
  lastApplied : Option LogId
  lastMembership : StoredMembership μ

namespace Replicated

variable {κ μ : Type}

def recordApplied (id : LogId) (s : Replicated κ μ) : Replicated κ μ := { s with lastApplied := some id }

def recordMembership (m : StoredMembership μ) (s : Replicated κ μ) : Replicated κ μ := { s with lastMembership := m }

end Replicated

inductive EntryPayload (γ μ : Type) where
  | blank
  | normal (write : ClusterWrite γ)
  | membership (members : μ)

structure Entry (γ μ : Type) where
  logId : LogId
  payload : EntryPayload γ μ

/-! ## Applying one write -/

/-- A failure that must stop this member. -/
inductive DurableFailure where
  | storage (reason : String)
  -- the blocking task ended without a result
  | panicked
  deriving DecidableEq

section Write

variable {κ γ ο χ μ : Type} (env : Env) (logic : ClusterLogic κ γ ο χ)

def applyMetadataCommand (c : MetadataCommand) : Tx (Data κ) DurableFailure (ClusterWriteResponse ο) := do
  let s ← get
  let (result, catalog) := exec (applyCommandTx env c) s.catalog
  -- what a refused command wrote stays in the open transaction
  set { s with catalog := catalog }
  match result with
  | .ok outcome => return .metadata outcome
  | .error (.refused e) =>
    if isDurableMetadataFailure e then throw (.storage e.toText) else return .rejected (classifyMetadataError e)
  | .error (.panicked _) => throw .panicked

def applyClusterCommand (c : γ) : Tx (Data κ) DurableFailure (ClusterWriteResponse ο) := do
  let s ← get
  let (result, cluster) := exec (logic.apply c) s.cluster
  set { s with cluster := cluster }
  match result with
  | .ok outcome => return .cluster outcome
  | .error e => if logic.isDurable e then throw (.storage (logic.toText e)) else return .rejected (logic.classify e)

mutual

/-- Applies one replicated write inside a transaction. -/
def applyWrite : ClusterWrite γ → Tx (Data κ) DurableFailure (ClusterWriteResponse ο)
  | .noop => return .noop
  | .metadata c => applyMetadataCommand env c
  | .cluster c => applyClusterCommand logic c
  | .batch writes => applyBatch writes []

/-- The loop over a batch: the first rejection is the answer to the whole. -/
def applyBatch : List (ClusterWrite γ) → List (ClusterWriteResponse ο) →
    Tx (Data κ) DurableFailure (ClusterWriteResponse ο)
  | [], responses => return .batch responses
  | w :: ws, responses => do
    match ← applyWrite w with
    | .rejected rejection => return .rejected rejection
    | response => applyBatch ws (responses ++ [response])

end

/-! ## Applying the log -/

/-- The transaction of a normal entry, up to its commit. -/
def normalTx (id : LogId) (w : ClusterWrite γ) (s : Replicated κ μ) :
    Except DurableFailure (ClusterWriteResponse ο) × Replicated κ μ :=
  let tx := s.recordApplied id
  let (result, data) := exec (applyWrite env logic w) tx.data
  (result, { tx with data := data })

def commitAppliedOnly (id : LogId) (s : Replicated κ μ) : Replicated κ μ := s.recordApplied id

def commitMembership (id : LogId) (members : μ) (s : Replicated κ μ) : Replicated κ μ :=
  (s.recordApplied id).recordMembership ⟨some id, members⟩

def applyEntry (e : Entry γ μ) (s : Replicated κ μ) :
    Except DurableFailure (ClusterWriteResponse ο) × Replicated κ μ :=
  match e.payload with
  | .blank => (.ok .noop, commitAppliedOnly e.logId s)
  | .membership members => (.ok .noop, commitMembership e.logId members s)
  | .normal w =>
    match normalTx env logic e.logId w s with
    -- the transaction is dropped, and the position advanced so that the entry is not retried
    | (.ok (.rejected rejection), _) => (.ok (.rejected rejection), commitAppliedOnly e.logId s)
    | (.ok response, tx) => (.ok response, tx)
    | (.error failure, _) => (.error failure, s)

end Write

end RecordStore.Consensus

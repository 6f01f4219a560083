import RecordStore.Metadata.Failures
import RecordStore.Audit.Appends

/-!
# Service.Writers — the threads that commit for everybody

The catalog and the audit log each have one writer thread.  It takes the requests that have queued,
runs them in arrival order inside one transaction and answers every caller after the commit; when any
of them fails, each is run again in a transaction of its own.  Both are instances of
`Lib.GroupCommit`.  A refused command may have written before it was refused, and a later one reads
what earlier ones of the batch wrote: neither shows in a reply or in the tables.
-/

namespace RecordStore.Service

open RecordStore.Lib RecordStore.Metadata Tx GroupCommit

/-! ## The catalog's writer -/

/-- A panic ends the writer thread, and with it the channels of the callers it has not answered. -/
def endsWriter : Failure → Bool
  | .panicked _ => true
  | .refused _ => false

/-- Applies and commits one command in a transaction of its own. -/
def commitOne (env : Env) (c : MetadataCommand) (s : Catalog) : Except Failure MetadataOutcome × Catalog :=
  commit (applyCommandTx env c) s

/-- Answers each command of a batch with `commitOne`, in arrival order. -/
def commitEach (env : Env) (batch : List MetadataCommand) (s : Catalog) : Replies Failure MetadataOutcome × Catalog :=
  oneByOne endsWriter (applyCommandTx env) batch s

/-- Commits a batch in one transaction; after a failure, each command in its own. -/
def commitBatch (env : Env) (batch : List MetadataCommand) (s : Catalog) :
    Replies Failure MetadataOutcome × Catalog :=
  match batch with
  | [c] =>
    match commitOne env c s with
    | (.ok outcome, s') => ([some (.ok outcome)], s')
    | (.error e, s') => ([if endsWriter e then none else some (.error e)], s')
  | _ => together endsWriter (applyCommandTx env) batch s

theorem commitBatch_single (env : Env) (c : MetadataCommand) (s : Catalog) :
    commitBatch env [c] s = commitEach env [c] s := by
  simp only [commitBatch, commitEach, oneByOne, commitOne]
  rcases returns_or_fails (applyCommandTx env c) s with ⟨a, s', hr⟩ | ⟨e, hf⟩
  · rw [commit_of_returns hr]
  · rw [commit_of_fails hf]
    cases e <;> rfl

/-- A build without overflow checks has no command that ends the writer. -/
theorem endsWriter_of_fails {env : Env} (hoff : env.overflowChecks = false) (c : MetadataCommand) (s : Catalog)
    (e : Failure) (hf : Fails (applyCommandTx env c) s e) : endsWriter e = false := by
  cases e with
  | refused e => rfl
  | panicked operation => exact absurd ⟨operation, rfl⟩ (Quiet.never_panics hoff c s _ hf)

theorem mapM_endsWriter {env : Env} (hoff : env.overflowChecks = false) {batch : List MetadataCommand} {s : Catalog}
    {e : Failure} (hf : Fails (batch.mapM (applyCommandTx env)) s e) : endsWriter e = false := by
  induction batch generalizing s with
  | nil => exact absurd hf fails_pure
  | cons c cs ih =>
    rcases fails_mapM_cons hf with h | ⟨_, s₁, -, h⟩
    · exact endsWriter_of_fails hoff c s e h
    · exact ih h

/-- The batch as the callers see it: its commands one by one. -/
theorem commitBatch_eq_commitEach {env : Env} {batch : List MetadataCommand} {s : Catalog}
    (h : env.overflowChecks = false ∨ none ∉ (commitEach env batch s).1) :
    commitBatch env batch s = commitEach env batch s := by
  have htogether : together endsWriter (applyCommandTx env) batch s = commitEach env batch s := by
    rcases h with hoff | hanswered
    · exact together_eq_oneByOne fun e hf => mapM_endsWriter hoff hf
    · exact together_eq_of_answered hanswered
  match batch with
  | [] => exact htogether
  | [c] => exact commitBatch_single env c s
  | _ :: _ :: _ => exact htogether

/-! ## Both writers -/

/-- Group commit is invisible.  A batch leaves the catalog, and answers every caller, as its commands
one by one do, if none of those ends the writer; in a release build none can.  The audit log's writer
has no such condition. -/
theorem group_commit_invisible (env : Env) (batch : List MetadataCommand) (s : Catalog)
    (h : env.overflowChecks = false ∨ none ∉ (commitEach env batch s).1) (sha256 : Bytes → Audit.Digest32)
    (codec : Audit.Codec) (events : List Audit.AuditEvent) (log : Audit.AuditLog) :
    commitBatch env batch s = commitEach env batch s ∧
      Audit.commitBatch sha256 codec events log =
        oneByOne (fun _ => false) (Audit.appendIn sha256 codec) events log :=
  ⟨commitBatch_eq_commitEach h, Audit.commitBatch_eq events log⟩

/-- A deletion between two writes, refused after it has moved the clock mark. -/
def refusedBetween : List MetadataCommand :=
  Sample.retained ++ [Sample.deleteRetained, .putObject (Sample.object 11 21 7) none .direct]

theorem group_commit_invisible_refusal :
    commitBatch Sample.env refusedBetween .empty = commitEach Sample.env refusedBetween .empty ∧
      (commitEach Sample.env refusedBetween .empty).1[2]? =
        some (some (.error (.refused (.versionLocked (.retention .compliance Sample.later))))) :=
  ⟨(group_commit_invisible Sample.env refusedBetween .empty (.inr (by decide +kernel)) Audit.Sample.digest
    Audit.Sample.coding [] ⟨∅, ∅, ∅⟩).1, by decide +kernel⟩

end RecordStore.Service

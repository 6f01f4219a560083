import RecordStore.Lib.GroupCommit
import RecordStore.Audit.Event

/-!
# Audit.Log — the durable audit log

The tables of the log, the writer that appends to them, and the walk that verifies the hash chain.
SHA-256 and the JSON encoding of stored records are parameters: a digest function, and a codec that
reads back what it wrote.
-/

namespace RecordStore.Audit

open RecordStore.Lib RecordStore.Core Tx

/-! ## The hash chain -/

/-- A SHA-256 digest used as a chain link. -/
@[ext] structure Digest32 where
  bytes : Bytes
  length_bytes : bytes.length = 32

instance : DecidableEq Digest32 := fun a b => decidable_of_iff (a.bytes = b.bytes) Digest32.ext_iff.symm

/-- Domain separator for the value a chain starts from. -/
def genesisDomain : Bytes := asBytes "record-store/audit-genesis/v1"

/-- Domain separator for a record hash. -/
def recordDomain : Bytes := asBytes "record-store/audit-record/v1"

/-- The bytes a record hash is taken over. -/
def recordPreimage (sequence : UInt64) (previous : Digest32) (canonical : Bytes) : Bytes :=
  recordDomain ++ beBytes 8 sequence.toNat ++ previous.bytes ++ canonical

/-- The two digests that place a record in the chain. -/
structure ChainLinks where
  previousHash : Digest32
  recordHash : Digest32
  deriving DecidableEq

/-- One audit record with its position and its links; a record without links predates the chain. -/
structure AuditRecord where
  sequence : UInt64
  chain : Option ChainLinks
  event : AuditEvent

/-- What recomputing one record's hash established. -/
inductive RecordVerdict where
  | intact
  | contentChanged
  | brokenLink
  | unchained
  | missing
  deriving DecidableEq

def RecordVerdict.label : RecordVerdict → String
  | .intact => "intact"
  | .contentChanged => "content changed"
  | .brokenLink => "broken link to the previous record"
  | .unchained => "predates the hash chain"
  | .missing => "record is missing from the log"

section Hash

variable (sha256 : Bytes → Digest32)

/-- The value the first chained record links back to. -/
def genesisHash : Digest32 := sha256 genesisDomain

/-- The hash committing one record to its predecessor. -/
def recordHash (sequence : UInt64) (previous : Digest32) (canonical : Bytes) : Digest32 :=
  sha256 (recordPreimage sequence previous canonical)

def hashEvent (sequence : UInt64) (previous : Digest32) (event : AuditEvent) : Digest32 :=
  recordHash sha256 sequence previous (canonicalBytes event)

def AuditRecord.verifyAgainst (record : AuditRecord) (previous : Digest32) : RecordVerdict :=
  match record.chain with
  | none => .unchained
  | some links =>
    if links.previousHash ≠ previous then .brokenLink
    -- the recomputation takes the sequence number that the record itself carries
    else if hashEvent sha256 record.sequence previous record.event = links.recordHash then .intact
    else .contentChanged

end Hash

/-! ## Tables -/

/-- Audit failures of the operations modelled here. -/
inductive AuditError where
  | encoding
  | database (operation reason : String)
  | invalidLimit
  deriving DecidableEq

/-- The JSON encoding of stored records and of the bare events of earlier releases. -/
structure Codec where
  encodeRecord : AuditRecord → Bytes
  decodeRecord : Bytes → Option AuditRecord
  decodeEvent : Bytes → Option AuditEvent
  decode_encode : ∀ record, decodeRecord (encodeRecord record) = some record

/-- `EVENTS`, `SEQUENCE_INDEX` and `CHAIN_STATE`. -/
structure AuditLog where
  events : Table Bytes Bytes
  sequenceIndex : Table UInt64 Bytes
  chainState : Table String Bytes

def nextSequenceKey : String := "next_sequence"
def headHashKey : String := "head_hash"

/-- The key of an event: its microseconds, not before the epoch, and its identifier. -/
def eventKey (event : AuditEvent) : Bytes :=
  beBytes 8 event.timestamp.clampedMicros.toNat ++ event.eventId.uuid.bytes

/-- The next sequence to assign and the last hash. -/
def readChainHead (sha256 : Bytes → Digest32) (log : AuditLog) : Except AuditError (UInt64 × Digest32) := do
  let next ← match log.chainState[nextSequenceKey]? with
    | none => pure 0
    | some value =>
      if value.length = 8 then pure (UInt64.ofNat (beValue value))
      else throw (.database "decode audit sequence" "sequence is not eight bytes")
  let head ← match log.chainState[headHashKey]? with
    | none => pure (genesisHash sha256)
    | some value =>
      if h : value.length = 32 then pure ⟨value, h⟩
      else throw (.database "decode audit chain head" "head is not thirty-two bytes")
  return (next, head)

/-- The stored value, accepting events written before the chain existed. -/
def decodeStored (codec : Codec) (value : Bytes) : Except AuditError AuditRecord :=
  match codec.decodeRecord value with
  | some record => .ok record
  | none =>
    match codec.decodeEvent value with
    | some event => .ok ⟨0, none, event⟩
    | none => .error .encoding

/-! ## Appends -/

section Append

variable (sha256 : Bytes → Digest32) (codec : Codec)

/-- The record of an event at a position. -/
def chainedRecord (sequence : UInt64) (previous : Digest32) (event : AuditEvent) : AuditRecord :=
  ⟨sequence, some ⟨previous, hashEvent sha256 sequence previous event⟩, event⟩

/-- Appends one event inside a transaction. -/
def appendIn (event : AuditEvent) : Tx AuditLog AuditError Unit := do
  let key := eventKey event
  match ← Tx.read (readChainHead sha256) with
  | .error e => throw e
  | .ok (sequence, previous) => do
    let record := chainedRecord sha256 sequence previous event
    let replaced ← Tx.read fun log => log.events[key]?
    modify fun log => { log with events := log.events.insert key (codec.encodeRecord record) }
    Tx.ensure (replaced = none)
      (.database "append event" "an audit record with this identifier and timestamp already exists")
    modify fun log => { log with sequenceIndex := log.sequenceIndex.insert sequence key }
    let head ← Tx.okOr record.chain (.database "append event" "a new record is always chained")
    modify fun log =>
      { log with chainState := log.chainState.insert nextSequenceKey (beBytes 8 (saturatingAdd sequence 1).toNat) }
    modify fun log => { log with chainState := log.chainState.insert headHashKey head.recordHash.bytes }

/-- Commits a batch in one transaction; if any append fails, each gets a transaction of its own. -/
def commitBatch (batch : List AuditEvent) (log : AuditLog) : GroupCommit.Replies AuditError Unit × AuditLog :=
  match commit (batch.mapM (appendIn sha256 codec)) log with
  | (.ok _, log') => (batch.map fun _ => some (.ok ()), log')
  | (.error e, _) =>
    match batch with
    | [_] => ([some (.error e)], log)
    | _ => GroupCommit.oneByOne (fun _ => false) (appendIn sha256 codec) batch log

/-- What happens to the log: its writer takes a batch, or the server reopens it. -/
inductive Operation where
  | batch (events : List AuditEvent)
  | reopen

/-- The events of a batch whose callers were told that they are durable. -/
def acknowledged (batch : List AuditEvent) (replies : GroupCommit.Replies AuditError Unit) : List AuditEvent :=
  (batch.zip replies).filterMap fun
    | (event, some (.ok ())) => some event
    | _ => none

/-- The log and the events acknowledged so far. -/
structure Served where
  log : AuditLog
  acked : List AuditEvent

def serve (st : Served) : Operation → Served
  | .batch events =>
    let (replies, log) := commitBatch sha256 codec events st.log
    ⟨log, st.acked ++ acknowledged events replies⟩
  -- opening creates the tables that do not exist and writes nothing else
  | .reopen => st

/-- A log that starts with the records of an earlier release, which no index names. -/
def serveAll (legacy : Table Bytes Bytes) (ops : List Operation) : Served :=
  ops.foldl (serve sha256 codec) ⟨⟨legacy, ∅, ∅⟩, []⟩

end Append

/-! ## Verification -/

/-- One record that did not verify. -/
structure ChainProblem where
  sequence : UInt64
  verdict : String
  deriving DecidableEq

/-- What walking a span of the chain established. -/
structure ChainVerification where
  fromSequence : UInt64
  checked : Nat
  intact : Nat
  unchained : Nat
  nextSequence : Option UInt64
  headSequence : Option UInt64
  problems : List ChainProblem
  deriving DecidableEq

def maximumChainProblems : Nat := 100

/-- Counts one verdict. -/
def ChainVerification.count (v : ChainVerification) (sequence : UInt64) : RecordVerdict → ChainVerification
  | .intact => { v with checked := v.checked + 1, intact := v.intact + 1 }
  | .unchained => { v with checked := v.checked + 1, unchained := v.unchained + 1 }
  | verdict =>
    { v with
      checked := v.checked + 1
      problems :=
        if v.problems.length < maximumChainProblems then v.problems ++ [⟨sequence, verdict.label⟩]
        else v.problems }

section Verify

variable (sha256 : Bytes → Digest32) (codec : Codec) (log : AuditLog)

/-- The record the index names at a position. -/
def load (sequence : UInt64) : Except AuditError (Option AuditRecord) :=
  match log.sequenceIndex[sequence]? with
  | none => .ok none
  | some key =>
    match log.events[key]? with
    | none => .ok none
    | some value => (decodeStored codec value).map some

/-- The verdict on what a position holds, and the hash to go on from: the one the record carries, even
when the record failed. -/
def examine (previous : Digest32) : Option AuditRecord → RecordVerdict × Digest32
  | some record =>
    (record.verifyAgainst sha256 previous, (record.chain.map (·.recordHash)).getD previous)
  | none => (.missing, previous)

/-- The loop of `verify_chain`: it runs while fewer than `limit` records are checked, so that what is
left of the limit decreases, and stops behind the head. -/
def verifyLoop (head : UInt64) :
    Nat → UInt64 → Digest32 → ChainVerification → Except AuditError (UInt64 × ChainVerification)
  | 0, sequence, _, v => .ok (sequence, v)
  | left + 1, sequence, previous, v =>
    if head < sequence then .ok (sequence, v)
    else do
      let found ← load codec log sequence
      let (verdict, previous) := examine sha256 previous found
      verifyLoop head left (saturatingAdd sequence 1) previous (v.count sequence verdict)

/-- The hash a walk from `sequence` starts with: that of the record before it, on trust. -/
def startHash (sequence : UInt64) : Except AuditError Digest32 :=
  if sequence = 0 then .ok (genesisHash sha256)
  else do
    match ← load codec log (sequence - 1) with
    | some record => return (record.chain.map (·.recordHash)).getD (genesisHash sha256)
    | none => return genesisHash sha256

/-- Walks the hash chain from `fromSequence`, examining at most `limit` records. -/
def verifyChain (fromSequence : UInt64) (limit : Nat) : Except AuditError ChainVerification := do
  if ¬ (1 ≤ limit ∧ limit ≤ 10000) then throw .invalidLimit
  let (nextToAssign, _) ← readChainHead sha256 log
  let headSequence := if nextToAssign = 0 then none else some (nextToAssign - 1)
  let previous ← startHash sha256 codec log fromSequence
  let verification : ChainVerification := ⟨fromSequence, 0, 0, 0, none, headSequence, []⟩
  match headSequence with
  | none => return verification
  | some head => do
    let (sequence, verification) ← verifyLoop sha256 codec log head limit fromSequence previous verification
    return if sequence ≤ head then { verification with nextSequence := some sequence } else verification

/-- Page after page with the given limits, each resuming where the one before it stopped. -/
def walk : List Nat → UInt64 → Except AuditError (List ChainVerification)
  | [], _ => .ok []
  | limit :: limits, fromSequence => do
    let page ← verifyChain sha256 codec log fromSequence limit
    match page.nextSequence with
    | none => return [page]
    | some next => return page :: (← walk limits next)

end Verify

end RecordStore.Audit

import RecordStore.Audit.Merkle

/-!
# Proof.History — checking a bundle's audit history offline

The checks look at different fields: the range and the leaf count of the checkpoint, the record hash and the sides of
an inclusion path, the links of records that stand next to each other in the bundle.  No check reads the sequence of a
record together with its path, and records that do not stand next to each other are not compared.
-/

namespace RecordStore.Proof

open RecordStore.Lib RecordStore.Core RecordStore.Audit Merkle

/-! ## Hexadecimal text -/

def hexValue (c : Char) : Option Nat :=
  if '0' ≤ c ∧ c ≤ '9' then some (c.toNat - '0'.toNat)
  else if 'a' ≤ c ∧ c ≤ 'f' then some (c.toNat - 'a'.toNat + 10)
  else if 'A' ≤ c ∧ c ≤ 'F' then some (c.toNat - 'A'.toNat + 10)
  else none

/-- `hex::decode`. -/
def hexDecode : List Char → Option Bytes
  | [] => some []
  | [_] => none
  | a :: b :: rest => do
    let high ← hexValue a
    let low ← hexValue b
    let bytes ← hexDecode rest
    return UInt8.ofNat (16 * high + low) :: bytes

theorem hexValue_hexDigit (n : Nat) : hexValue (hexDigit n) = some (n % 16) := by
  have h : ∀ m < 16, hexValue (hexDigit m) = some m := by decide
  rw [← hexDigit_mod]
  exact h _ (Nat.mod_lt _ (by decide))

theorem hexDecode_hexDigits (b : Bytes) : hexDecode (hexDigits b) = some b := by
  induction b with
  | nil => rfl
  | cons x b ih =>
    have hbyte : UInt8.ofNat (16 * (x.toNat / 16 % 16) + x.toNat % 16) = x := by
      have hx := x.toNat_lt
      rw [show 16 * (x.toNat / 16 % 16) + x.toNat % 16 = x.toNat by omega, UInt8.ofNat_toNat]
    show hexDecode (hexDigit (x.toNat / 16) :: hexDigit x.toNat :: hexDigits b) = _
    simp only [hexDecode, hexValue_hexDigit, ih, Option.bind_eq_bind, Option.bind_some, hbyte, Option.pure_def]

theorem hexDecode_hexEncode (b : Bytes) : hexDecode (hexEncode b).toList = some b := by
  rw [hexEncode, String.toList_ofList]
  exact hexDecode_hexDigits b

/-! ## The bundle -/

/-- One audit record, with what is needed to prove it sits under a root. -/
structure HistoryRecord where
  sequence : UInt64
  previousHash : String
  recordHash : String
  inclusionPath : InclusionPath
  deriving DecidableEq

/-- The checkpoint covering a bundle's records. -/
structure Checkpoint where
  sequence : UInt64
  fromSequence : UInt64
  toSequence : UInt64
  leafCount : UInt64
  root : String
  deriving DecidableEq

/-- Why a bundle has no history. -/
inductive HistoryUnavailable where
  | chainNotEnabled
  | versionPredatesChain
  | notYetCheckpointed
  deriving DecidableEq

def HistoryUnavailable.label : HistoryUnavailable → String
  | .chainNotEnabled => "chain not enabled"
  | .versionPredatesChain => "version predates the chain"
  | .notYetCheckpointed => "not yet covered by a checkpoint"

/-- The audit history covering an object version; of an anchor's receipt its kind is shown. -/
inductive History where
  | unavailable (reason : HistoryUnavailable) (detail : String)
  | present (records : List HistoryRecord) (checkpoint : Checkpoint) (anchor : Option String)
  deriving DecidableEq

/-! ## Checks -/

/-- What one check established. -/
inductive CheckStatus where
  | passed
  | failed
  | notProved
  deriving DecidableEq

/-- One named check and what it established. -/
structure Check where
  name : String
  status : CheckStatus
  detail : String
  deriving DecidableEq

/-- `hex::decode`, of exactly thirty-two bytes. -/
def decodeDigest (value : String) : Option Digest32 :=
  match hexDecode value.toList with
  | none => none
  | some bytes => if h : bytes.length = 32 then some ⟨bytes, h⟩ else none

def showSequence (n : UInt64) : String := toString n.toNat

/-- `from..=to`. -/
def Checkpoint.covers (c : Checkpoint) : String := showSequence c.fromSequence ++ "..=" ++ showSequence c.toSequence

section Model

-- whether the build checks its arithmetic; where it does, a sum that does not fit panics
variable (overflowChecks : Bool)

/-- `n + 1`, or a panic. -/
def addOne (n : UInt64) : Option UInt64 := if overflowChecks ∧ n = 0xffffffffffffffff then none else some (n + 1)

/-- Checks that the checkpoint's leaf count agrees with the range it claims. -/
def verifyCheckpointSize (c : Checkpoint) : Option Check :=
  if c.toSequence < c.fromSequence then
    some ⟨"checkpoint range", .failed, "checkpoint " ++ showSequence c.sequence ++
      " claims to cover sequences " ++ c.covers ++ ", which is not a range"⟩
  else
    match addOne overflowChecks (c.toSequence - c.fromSequence) with
    | none => none
    | some covered =>
      if covered = c.leafCount then
        some ⟨"checkpoint range", .passed, "checkpoint " ++ showSequence c.sequence ++
          " covers sequences " ++ c.covers ++
          ", which is the " ++ showSequence c.leafCount ++ " records its Merkle tree was built from"⟩
      else
        some ⟨"checkpoint range", .failed, "checkpoint " ++ showSequence c.sequence ++
          " claims sequences " ++ c.covers ++
          ", which is " ++ showSequence covered ++ " records, but its Merkle tree was built from " ++
          showSequence c.leafCount ++
            ". Records covered by this checkpoint are missing from the tree that commits to them."⟩

variable (sha256 : Bytes → Digest32)

/-- Why a record does not sit under the root, if it does not. -/
def inclusionProblem (c : Checkpoint) (root : Digest32) (r : HistoryRecord) : Option String :=
  match decodeDigest r.recordHash with
  | none => some ("record " ++ showSequence r.sequence ++ " has a malformed hash")
  | some recordHash =>
    match rootFromPath sha256 recordHash r.inclusionPath c.leafCount with
    | none =>
      some ("record " ++ showSequence r.sequence ++ " carries an inclusion path of " ++
        toString r.inclusionPath.steps.length ++ " step(s), which is not the path index " ++
        showSequence r.inclusionPath.index ++ " takes in a tree of " ++ showSequence c.leafCount ++ " leaves")
    | some computed =>
      if computed ≠ root then
        some ("record " ++ showSequence r.sequence ++ " does not sit under the checkpoint root it claims")
      else none

/-- Recomputes each record's path up to the checkpoint root. -/
def verifyInclusion (records : List HistoryRecord) (c : Checkpoint) : Check :=
  match decodeDigest c.root with
  | none => ⟨"audit inclusion", .failed, "the checkpoint root is not valid hex"⟩
  | some root =>
    match records.findSome? (inclusionProblem sha256 c root) with
    | some problem => ⟨"audit inclusion", .failed, problem⟩
    | none =>
      ⟨"audit inclusion", .passed, "all " ++ toString records.length ++ " records sit under checkpoint " ++
        showSequence c.sequence ++ " covering sequences " ++ c.covers ++ " (" ++ showSequence c.leafCount ++ " leaves)"⟩

/-- The loop over neighbouring records: a broken link, or how many links hold. -/
def countLinks : List HistoryRecord → Nat → Option (Except String Nat)
  | earlier :: later :: rest, linked =>
    match addOne overflowChecks earlier.sequence with
    | none => none
    | some next =>
      if later.sequence ≠ next then countLinks (later :: rest) linked
      else if later.previousHash ≠ earlier.recordHash then
        some (.error ("record " ++ showSequence later.sequence ++ " does not link to record " ++
          showSequence earlier.sequence))
      else countLinks (later :: rest) (linked + 1)
  | _, linked => some (.ok linked)

/-- Checks that consecutive records in the bundle link to one another. -/
def verifyLinks (records : List HistoryRecord) : Option Check :=
  match countLinks overflowChecks records 0 with
  | none => none
  | some (.error problem) => some ⟨"audit chain links", .failed, problem⟩
  | some (.ok 0) =>
    some ⟨"audit chain links", .notProved, "the records in this bundle are not adjacent in the log, so their links " ++
      "cannot be checked against one another here. Verify the full chain on the deployment with " ++
      "`record-store audit verify`."⟩
  | some (.ok linked) =>
    some ⟨"audit chain links", .passed, toString linked ++ " adjacent record link(s) check out"⟩

/-- What is reported about an anchor: nothing is ever established. -/
def anchorCheck : Option String → Check
  | some kind =>
    ⟨"external anchor", .notProved, "a " ++ kind ++ " receipt is present and is reproduced verbatim, but this build " ++
      "does not validate it. Verify it with the anchor's own tooling."⟩
  | none =>
    ⟨"external anchor", .notProved, "no anchor receipt is present, so nothing establishes that this state existed " ++
      "before now other than the deployment's own assertion."⟩

/-- Checks the audit history, when the bundle carries one. -/
def verifyHistory : History → Option (List Check)
  | .unavailable reason detail =>
    some [⟨"audit history", .notProved, "this bundle carries no audit history (" ++ reason.label ++ "): " ++ detail ++
        ". Nothing here establishes what happened to the object, only what it contains."⟩,
      ⟨"external anchor", .notProved,
        "without audit history there is no checkpoint to anchor, so nothing establishes " ++
        "that this state existed at a particular time."⟩]
  | .present records checkpoint anchor => do
    let size ← verifyCheckpointSize overflowChecks checkpoint
    let links ← verifyLinks overflowChecks records
    return [size, verifyInclusion sha256 records checkpoint, links, anchorCheck anchor]

end Model

/-! ## What each check establishes -/

section Checks

variable {overflowChecks : Bool} {sha256 : Bytes → Digest32}

theorem addOne_eq {n m : UInt64} (h : addOne overflowChecks n = some m) : m = n + 1 := by
  unfold addOne at h
  split_ifs at h
  exact (Option.some.inj h).symm

theorem range_of_verifyCheckpointSize {c : Checkpoint} {check : Check}
    (h : verifyCheckpointSize overflowChecks c = some check) (hpassed : check.status ≠ .failed) :
    c.fromSequence ≤ c.toSequence ∧ c.leafCount = c.toSequence - c.fromSequence + 1 := by
  unfold verifyCheckpointSize at h
  split_ifs at h with hrange
  · obtain rfl := Option.some.inj h
    exact absurd rfl hpassed
  · cases hsum : addOne overflowChecks (c.toSequence - c.fromSequence) with
    | none =>
      rw [hsum] at h
      cases h
    | some covered =>
      simp only [hsum] at h
      split_ifs at h with hcovered
      · exact ⟨UInt64.not_lt.mp hrange, hcovered ▸ addOne_eq hsum⟩
      · obtain rfl := Option.some.inj h
        exact absurd rfl hpassed

theorem computed_of_inclusionProblem {c : Checkpoint} {digest : Digest32} {r : HistoryRecord}
    (h : inclusionProblem sha256 c digest r = none) :
    ∃ recordHash, decodeDigest r.recordHash = some recordHash ∧
      rootFromPath sha256 recordHash r.inclusionPath c.leafCount = some digest := by
  unfold inclusionProblem at h
  cases hhash : decodeDigest r.recordHash with
  | none =>
    rw [hhash] at h
    cases h
  | some recordHash =>
    simp only [hhash] at h
    refine ⟨recordHash, rfl, ?_⟩
    cases hcomputed : rootFromPath sha256 recordHash r.inclusionPath c.leafCount with
    | none =>
      rw [hcomputed] at h
      cases h
    | some computed =>
      simp only [hcomputed] at h
      split_ifs at h with hne
      exact congrArg some (not_not.mp hne)

theorem computed_of_verifyInclusion {records : List HistoryRecord} {c : Checkpoint} {digest : Digest32}
    (hdigest : decodeDigest c.root = some digest) (hpassed : (verifyInclusion sha256 records c).status ≠ .failed)
    {r : HistoryRecord} (hr : r ∈ records) :
    ∃ recordHash, decodeDigest r.recordHash = some recordHash ∧
      rootFromPath sha256 recordHash r.inclusionPath c.leafCount = some digest := by
  unfold verifyInclusion at hpassed
  simp only [hdigest] at hpassed
  cases hproblem : records.findSome? (inclusionProblem sha256 c digest) with
  | some problem =>
    rw [hproblem] at hpassed
    exact absurd rfl hpassed
  | none => exact computed_of_inclusionProblem (List.findSome?_eq_none_iff.mp hproblem r hr)

/-- Neighbours in the bundle with adjacent sequence numbers are linked. -/
theorem linked_of_countLinks {records : List HistoryRecord} {linked total : Nat}
    (h : countLinks overflowChecks records linked = some (.ok total)) {i : Nat} {earlier later : HistoryRecord}
    (hearlier : records[i]? = some earlier) (hlater : records[i + 1]? = some later)
    (hadjacent : later.sequence.toNat = earlier.sequence.toNat + 1) : later.previousHash = earlier.recordHash := by
  induction records generalizing linked i with
  | nil => cases hearlier
  | cons first rest ih =>
    cases rest with
    | nil => cases hlater
    | cons second rest =>
      unfold countLinks at h
      cases hsum : addOne overflowChecks first.sequence with
      | none =>
        rw [hsum] at h
        cases h
      | some next =>
        simp only [hsum] at h
        cases i with
        | succ i =>
          split_ifs at h with hnext hlink
          · exact ih h hearlier hlater
          · cases Option.some.inj h
          · exact ih h hearlier hlater
        | zero =>
          obtain rfl := Option.some.inj hearlier
          obtain rfl := Option.some.inj hlater
          have hsequence : second.sequence = next := by
            have hbound := second.sequence.toNat_lt
            refine UInt64.toNat_inj.mp ?_
            rw [addOne_eq hsum, UInt64.toNat_add, hadjacent]
            exact (Nat.mod_eq_of_lt (hadjacent ▸ hbound)).symm
          rw [if_neg (not_not.mpr hsequence)] at h
          split_ifs at h with hlink
          · cases Option.some.inj h
          · exact not_not.mp hlink

theorem countLinks_of_verifyLinks {records : List HistoryRecord} {check : Check}
    (h : verifyLinks overflowChecks records = some check) (hpassed : check.status ≠ .failed) :
    ∃ total, countLinks overflowChecks records 0 = some (.ok total) := by
  unfold verifyLinks at h
  cases hlinks : countLinks overflowChecks records 0 with
  | none =>
    rw [hlinks] at h
    cases h
  | some result =>
    cases result with
    | ok total => exact ⟨total, rfl⟩
    | error problem =>
      rw [hlinks] at h
      obtain rfl := Option.some.inj h
      exact absurd rfl hpassed

end Checks

/-! ## What a verified history describes -/

/-- The bundle's records are the ones of the log whose record hashes over the checkpoint's range are `hashes`: each is
the one its sequence number names, and any two with adjacent sequence numbers are linked. -/
structure Describes (hashes : List Digest32) (c : Checkpoint) (records : List HistoryRecord) : Prop where
  named : ∀ r ∈ records, c.fromSequence ≤ r.sequence ∧ r.sequence ≤ c.toSequence ∧ ∃ recordHash,
    decodeDigest r.recordHash = some recordHash ∧
      hashes[r.sequence.toNat - c.fromSequence.toNat]? = some recordHash
  linked : ∀ earlier ∈ records, ∀ later ∈ records, later.sequence.toNat = earlier.sequence.toNat + 1 →
    later.previousHash = earlier.recordHash

/-- The leaf a record's path climbs from, in a tree of the checkpoint's size. -/
def HistoryRecord.leaf (c : Checkpoint) (r : HistoryRecord) : Option Nat :=
  positionOf c.leafCount.toNat (r.inclusionPath.steps.map (·.side)).reverse

/-- A record's sequence is in range, and the leaf its path climbs from holds what the leaf of its sequence holds. -/
def HistoryRecord.AtItsLeaf (hashes : List Digest32) (c : Checkpoint) (r : HistoryRecord) : Prop :=
  c.fromSequence ≤ r.sequence ∧ r.sequence ≤ c.toSequence ∧
    ∃ p, r.leaf c = some p ∧ hashes[r.sequence.toNat - c.fromSequence.toNat]? = hashes[p]?

/-- Records with adjacent sequence numbers that do not stand next to each other, the earlier first, are linked. -/
def ApartLinked (records : List HistoryRecord) : Prop :=
  ∀ i j earlier later, records[i]? = some earlier → records[j]? = some later → j ≠ i + 1 →
    later.sequence.toNat = earlier.sequence.toNat + 1 → later.previousHash = earlier.recordHash

theorem apartLinked_of_increasing {records : List HistoryRecord}
    (h : records.Pairwise fun a b => a.sequence.toNat < b.sequence.toNat) : ApartLinked records := by
  intro i j earlier later hearlier hlater hapart hadjacent
  obtain ⟨hi, rfl⟩ := List.getElem?_eq_some_iff.mp hearlier
  obtain ⟨hj, rfl⟩ := List.getElem?_eq_some_iff.mp hlater
  have horder := List.pairwise_iff_getElem.mp h
  rcases Nat.lt_trichotomy i j with hij | rfl | hji
  · -- a record between the two has a sequence between theirs
    have hmiddle : i + 1 < j := by omega
    have h1 := horder i (i + 1) hi (by omega) (Nat.lt_succ_self i)
    have h2 := horder (i + 1) j (by omega) hj hmiddle
    omega
  · omega
  · have := horder j i hj hi hji
    omega

section History

variable {overflowChecks : Bool} {sha256 : Bytes → Digest32} {hashes : List Digest32} {digest : Digest32}
  {records : List HistoryRecord} {c : Checkpoint} {anchor : Option String} {checks : List Check}

/-- The three checks of a history that none of them failed. -/
theorem checks_of_verifyHistory
    (hchecks : verifyHistory overflowChecks sha256 (.present records c anchor) = some checks)
    (hpassed : ∀ check ∈ checks, check.status ≠ .failed) :
    (c.fromSequence ≤ c.toSequence ∧ c.leafCount = c.toSequence - c.fromSequence + 1) ∧
      (verifyInclusion sha256 records c).status ≠ .failed ∧
      ∃ total, countLinks overflowChecks records 0 = some (.ok total) := by
  unfold verifyHistory at hchecks
  simp only [Option.bind_eq_bind, Option.bind_eq_some_iff, Option.pure_def, Option.some.injEq] at hchecks
  obtain ⟨size, hsize, links, hlinks, rfl⟩ := hchecks
  refine ⟨range_of_verifyCheckpointSize hsize (hpassed _ ?_), hpassed _ ?_,
    countLinks_of_verifyLinks hlinks (hpassed _ ?_)⟩
  all_goals simp

/-- A record that passes is the one at the leaf its path climbs from. -/
theorem leaf_of_verifyHistory (hlength : hashes.length + c.fromSequence.toNat = c.toSequence.toNat + 1)
    (hroot : root sha256 hashes = some digest) (hdigest : decodeDigest c.root = some digest)
    (hfree : ∀ r ∈ records, ∀ recordHash, decodeDigest r.recordHash = some recordHash →
      CollisionFree sha256 (rootPreimages sha256 hashes ++ pathPreimages sha256 recordHash r.inclusionPath))
    (hrange : c.fromSequence ≤ c.toSequence ∧ c.leafCount = c.toSequence - c.fromSequence + 1)
    (hincluded : (verifyInclusion sha256 records c).status ≠ .failed) {r : HistoryRecord} (hr : r ∈ records) :
    ∃ recordHash p, decodeDigest r.recordHash = some recordHash ∧ r.leaf c = some p ∧ hashes[p]? = some recordHash := by
  obtain ⟨recordHash, hhash, hcomputed⟩ := computed_of_verifyInclusion hdigest hincluded hr
  obtain ⟨p, hp, hat⟩ := position_of_rootFromPath hroot hcomputed (hfree r hr recordHash hhash)
  refine ⟨recordHash, p, hhash, ?_, hat⟩
  -- a count that wrapped to zero has no path
  have hpositive : c.leafCount.toNat ≠ 0 := by
    intro hzero
    have hnone : pathLength c.leafCount r.inclusionPath.index = none := by
      refine if_pos (UInt64.le_iff_toNat_le.mpr ?_)
      omega
    unfold rootFromPath at hcomputed
    rw [hnone] at hcomputed
    cases hcomputed
  have hcount : c.leafCount.toNat = hashes.length := by
    have hle := UInt64.le_iff_toNat_le.mp hrange.1
    have hbound := c.toSequence.toNat_lt
    rw [hrange.2, UInt64.toNat_add, UInt64.toNat_sub_of_le _ _ hrange.1] at hpositive ⊢
    have hone : (1 : UInt64).toNat = 1 := rfl
    rw [hone] at hpositive ⊢
    omega
  rw [HistoryRecord.leaf, hcount]
  exact hp

/-- A history none of whose checks failed describes the log exactly if the sequence of every record is the one of the
leaf its path climbs from, and records with adjacent sequences that the link check does not compare are linked. -/
theorem describes_iff (overflowChecks : Bool) (sha256 : Bytes → Digest32) (hashes : List Digest32) (digest : Digest32)
    (records : List HistoryRecord) (c : Checkpoint) (anchor : Option String) (checks : List Check)
    (hlength : hashes.length + c.fromSequence.toNat = c.toSequence.toNat + 1)
    (hroot : root sha256 hashes = some digest) (hdigest : decodeDigest c.root = some digest)
    (hfree : ∀ r ∈ records, ∀ recordHash, decodeDigest r.recordHash = some recordHash →
      CollisionFree sha256 (rootPreimages sha256 hashes ++ pathPreimages sha256 recordHash r.inclusionPath))
    (hchecks : verifyHistory overflowChecks sha256 (.present records c anchor) = some checks)
    (hpassed : ∀ check ∈ checks, check.status ≠ .failed) :
    (Describes hashes c records ↔ (∀ r ∈ records, r.AtItsLeaf hashes c) ∧ ApartLinked records) ∧
      (hashes.Nodup → ∀ r ∈ records, r.AtItsLeaf hashes c ↔
        c.fromSequence ≤ r.sequence ∧ r.leaf c = some (r.sequence.toNat - c.fromSequence.toNat)) ∧
      (records.Pairwise (fun a b => a.sequence.toNat < b.sequence.toNat) → ApartLinked records) := by
  obtain ⟨hrange, hincluded, total, hlinks⟩ := checks_of_verifyHistory hchecks hpassed
  have hleaf := fun {r} => leaf_of_verifyHistory (r := r) hlength hroot hdigest hfree hrange hincluded
  refine ⟨⟨fun hdescribes => ⟨?_, ?_⟩, fun hcondition => ⟨?_, ?_⟩⟩, ?_, apartLinked_of_increasing⟩
  · intro r hr
    obtain ⟨hfrom, hto, recordHash, hhash, hat⟩ := hdescribes.named r hr
    obtain ⟨recordHash', p, hhash', hp, hat'⟩ := hleaf hr
    obtain rfl := Option.some.inj (hhash.symm.trans hhash')
    exact ⟨hfrom, hto, p, hp, hat.trans hat'.symm⟩
  · intro i j earlier later hearlier hlater _ hadjacent
    exact hdescribes.linked earlier (List.mem_of_getElem? hearlier) later (List.mem_of_getElem? hlater) hadjacent
  · intro r hr
    obtain ⟨hfrom, hto, p, hp, hsame⟩ := hcondition.1 r hr
    obtain ⟨recordHash, p', hhash, hp', hat⟩ := hleaf hr
    obtain rfl := Option.some.inj (hp.symm.trans hp')
    exact ⟨hfrom, hto, recordHash, hhash, hsame.trans hat⟩
  · intro earlier hearlier later hlater hadjacent
    obtain ⟨i, hi⟩ := List.getElem?_of_mem hearlier
    obtain ⟨j, hj⟩ := List.getElem?_of_mem hlater
    by_cases hnext : j = i + 1
    · exact linked_of_countLinks hlinks hi (hnext ▸ hj) hadjacent
    · exact hcondition.2 i j earlier later hi hj hnext hadjacent
  · intro hnodup r hr
    obtain ⟨recordHash, p, hhash, hp, hat⟩ := hleaf hr
    obtain ⟨hplt, -⟩ := List.getElem?_eq_some_iff.mp hat
    constructor
    · rintro ⟨hfrom, hto, q, hq, hsame⟩
      obtain rfl := Option.some.inj (hp.symm.trans hq)
      rw [hp, List.getElem?_inj hplt hnodup |>.mp hsame.symm]
      exact ⟨hfrom, rfl⟩
    · rintro ⟨hfrom, hq⟩
      obtain rfl := Option.some.inj (hp.symm.trans hq)
      refine ⟨hfrom, UInt64.le_iff_toNat_le.mpr ?_, _, hp, rfl⟩
      have := UInt64.le_iff_toNat_le.mp hfrom
      omega

end History

/-! ## A log of two records -/

open Audit.Sample

namespace Sample

def one : Digest32 := startingWith [1]
def two : Digest32 := startingWith [2]

def text (d : Digest32) : String := hexEncode d.bytes

/-- The checkpoint over sequences five and six. -/
def overTwo : Checkpoint := ⟨1, 5, 6, 2, text (startingWith [2, 1])⟩

def firstPath : InclusionPath := ⟨0, [⟨.right, leafHash kindHash two⟩]⟩
def secondPath : InclusionPath := ⟨1, [⟨.left, leafHash kindHash one⟩]⟩

def first (sequence : UInt64) : HistoryRecord := ⟨sequence, text two, text one, firstPath⟩
def second (sequence : UInt64) (previousHash : String) : HistoryRecord :=
  ⟨sequence, previousHash, text two, secondPath⟩

/-- Nothing the check of the records hashes collides. -/
def Free (records : List HistoryRecord) : Prop :=
  ∀ r ∈ records, ∀ recordHash, decodeDigest r.recordHash = some recordHash →
    CollisionFree kindHash (rootPreimages kindHash [one, two] ++ pathPreimages kindHash recordHash r.inclusionPath)

theorem decodeDigest_text (d : Digest32) : decodeDigest (text d) = some d := by
  unfold decodeDigest text
  rw [hexDecode_hexEncode]
  exact dif_pos d.length_bytes

theorem free (a b : UInt64) (p : String) : Free [first a, second b p] ∧ Free [second b p, first a] := by
  have hone : CollisionFree kindHash (rootPreimages kindHash [one, two] ++ pathPreimages kindHash one firstPath) := by
    unfold CollisionFree
    decide +kernel
  have htwo : CollisionFree kindHash (rootPreimages kindHash [one, two] ++ pathPreimages kindHash two secondPath) := by
    unfold CollisionFree
    decide +kernel
  have hfirst : ∀ recordHash, decodeDigest (text one) = some recordHash →
      CollisionFree kindHash (rootPreimages kindHash [one, two] ++ pathPreimages kindHash recordHash firstPath) := by
    intro recordHash h
    rwa [← Option.some.inj ((decodeDigest_text one).symm.trans h)]
  have hsecond : ∀ recordHash, decodeDigest (text two) = some recordHash →
      CollisionFree kindHash (rootPreimages kindHash [one, two] ++ pathPreimages kindHash recordHash secondPath) := by
    intro recordHash h
    rwa [← Option.some.inj ((decodeDigest_text two).symm.trans h)]
  constructor
  all_goals
    intro r hr
    simp only [List.mem_cons, List.not_mem_nil, or_false] at hr
    rcases hr with rfl | rfl <;> assumption

/-- No check of the history fails. -/
def Accepted (records : List HistoryRecord) : Prop :=
  ∃ checks, verifyHistory true kindHash (.present records overTwo none) = some checks ∧
    ∀ check ∈ checks, check.status ≠ .failed

instance : DecidablePred Accepted := fun _ => inferInstanceAs (Decidable (∃ _, _ = some _ ∧ _))

end Sample

open Sample in
/-- The two records under their own sequences are described. -/
theorem describes_iff_two : Describes [one, two] overTwo [first 5, second 6 (text one)] := by
  obtain ⟨checks, hchecks, hpassed⟩ : Accepted [first 5, second 6 (text one)] := by decide +kernel
  obtain ⟨hiff, hleaf, hordered⟩ := describes_iff true kindHash [one, two] (startingWith [2, 1]) _ overTwo none checks
    (by decide +kernel) (by decide +kernel) (decodeDigest_text _) (free 5 6 _).1 hchecks hpassed
  refine hiff.mpr ⟨fun r hr => (hleaf (by decide +kernel) r hr).mpr ?_, hordered (by decide +kernel)⟩
  simp only [List.mem_cons, List.not_mem_nil, or_false] at hr
  rcases hr with rfl | rfl <;> decide +kernel

open Sample in
/-- The same two records pass under sequences the checkpoint does not cover; and in reverse order they pass though the
second does not link to the first. -/
theorem accepted_not_described :
    (root kindHash [one, two] = decodeDigest overTwo.root ∧ Free [first 8, second 9 (text one)] ∧
      Accepted [first 8, second 9 (text one)] ∧ ∀ r ∈ [first 8, second 9 (text one)], overTwo.toSequence < r.sequence) ∧
    Free [second 6 (text two), first 5] ∧ Accepted [second 6 (text two), first 5] ∧
      ¬ Describes [one, two] overTwo [second 6 (text two), first 5] := by
  refine ⟨⟨?_, (free 8 9 _).1, by decide +kernel, by decide +kernel⟩, (free 5 6 _).2,
    by decide +kernel, fun hdescribes => ?_⟩
  · exact (by decide +kernel : root kindHash [one, two] = some (startingWith [2, 1])).trans (decodeDigest_text _).symm
  · have hlink := hdescribes.linked (first 5) (by simp) (second 6 (text two)) (by simp) (by decide +kernel)
    exact absurd hlink (by decide +kernel)

end RecordStore.Proof

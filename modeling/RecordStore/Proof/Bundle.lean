import RecordStore.Proof.History

/-!
# Proof.Bundle — what the signature of a bundle covers

The bytes that are signed: every field except the signature, in a fixed order, every text and every list with its
length, every choice with a tag.  They determine the bundle, up to the digits of its times below the microsecond
(`signedBytes_determine`).
-/

namespace RecordStore.Proof

open RecordStore.Lib RecordStore.Core RecordStore.Audit Merkle

/-! ## The bundle -/

/-- Object identity. -/
structure ObjectIdentity where
  bucket : String
  key : String
  versionId : String
  size : UInt64
  contentType : Option String
  createdAt : DateTime

/-- A record of the history with what it says about itself. -/
structure BundleRecord extends HistoryRecord where
  timestamp : DateTime
  operation : String
  principal : String
  result : String

/-- The checkpoint with its predecessor. -/
structure BundleCheckpoint extends Checkpoint where
  previousCheckpointHash : String

/-- A durable receipt from an external anchor. -/
structure AnchorReceipt where
  kind : String
  receipt : String
  assertedAt : Option DateTime

/-- The audit history covering an object version. -/
inductive BundleHistory where
  | unavailable (reason : HistoryUnavailable) (detail : String)
  | present (records : List BundleRecord) (checkpoint : BundleCheckpoint) (anchor : Option AnchorReceipt)

/-- The deployment that produced a bundle. -/
structure Deployment where
  algorithm : String
  publicKey : String
  keyId : String

/-- The signature over a bundle. -/
structure BundleSignature where
  algorithm : String
  canonicalVersion : UInt16
  value : String

/-- A self-contained statement about one immutable object version; of the payload it has the digest. -/
structure ProofBundle where
  format : String
  formatVersion : UInt16
  object : ObjectIdentity
  payloadSha256 : String
  history : BundleHistory
  deployment : Deployment
  signature : BundleSignature

/-! ## The bytes that are signed -/

/-- Domain separator for a bundle signature. -/
def bundleDomain : Bytes := asBytes "record-store/proof-bundle/v1"

def bundleCanonicalVersion : UInt16 := 1

def putTime (value : DateTime) : Bytes := beBytes 8 value.timestampMicros.toUInt64.toNat
def putU64 (value : UInt64) : Bytes := beBytes 8 value.toNat

/-- A list after its length, as four bytes. -/
def putList {α : Type} (put : α → Bytes) (values : List α) : Bytes := putLength values.length ++ values.flatMap put

def putSide : Side → UInt8
  | .left => 0
  | .right => 1

def putStep (step : PathStep Digest32) : Bytes := putSide step.side :: putBytes step.hash.bytes

def putRecord (record : BundleRecord) : Bytes :=
  putU64 record.sequence ++ putTime record.timestamp ++ putStr record.operation ++ putStr record.principal ++
    putStr record.result ++ putStr record.previousHash ++ putStr record.recordHash ++
    putU64 record.inclusionPath.index ++ putList putStep record.inclusionPath.steps

def putCheckpoint (c : BundleCheckpoint) : Bytes :=
  putU64 c.sequence ++ putU64 c.fromSequence ++ putU64 c.toSequence ++ putU64 c.leafCount ++ putStr c.root ++
    putStr c.previousCheckpointHash

def putAnchor (anchor : AnchorReceipt) : Bytes :=
  putStr anchor.kind ++ putStr anchor.receipt ++ tagged putTime anchor.assertedAt

def putHistory : BundleHistory → Bytes
  | .unavailable reason detail => 0 :: (putStr reason.label ++ putStr detail)
  | .present records checkpoint anchor =>
    1 :: (putList putRecord records ++ putCheckpoint checkpoint ++ tagged putAnchor anchor)

def putObject (object : ObjectIdentity) : Bytes :=
  putStr object.bucket ++ putStr object.key ++ putStr object.versionId ++ putU64 object.size ++
    putOptionalStr object.contentType ++ putTime object.createdAt

/-- The bytes a signature is computed over. -/
def ProofBundle.canonicalBytes (b : ProofBundle) : Bytes :=
  bundleDomain ++ beBytes 2 bundleCanonicalVersion.toNat ++ putStr b.format ++ beBytes 2 b.formatVersion.toNat ++
    putObject b.object ++ putStr b.payloadSha256 ++ putHistory b.history ++ putStr b.deployment.algorithm ++
    putStr b.deployment.publicKey ++ putStr b.deployment.keyId

/-! ## Bundles that agree -/

/-- The same time in microseconds. -/
def SameTime (t t' : DateTime) : Prop := t.timestampMicros = t'.timestampMicros

structure SameObject (o o' : ObjectIdentity) : Prop where
  bucket : o.bucket = o'.bucket
  key : o.key = o'.key
  versionId : o.versionId = o'.versionId
  size : o.size = o'.size
  contentType : o.contentType = o'.contentType
  createdAt : SameTime o.createdAt o'.createdAt

structure SameRecord (r r' : BundleRecord) : Prop where
  proved : r.toHistoryRecord = r'.toHistoryRecord
  timestamp : SameTime r.timestamp r'.timestamp
  operation : r.operation = r'.operation
  principal : r.principal = r'.principal
  result : r.result = r'.result

structure SameAnchor (a a' : AnchorReceipt) : Prop where
  kind : a.kind = a'.kind
  receipt : a.receipt = a'.receipt
  assertedAt : Option.Rel SameTime a.assertedAt a'.assertedAt

inductive SameHistory : BundleHistory → BundleHistory → Prop
  | unavailable (reason : HistoryUnavailable) (detail : String) :
    SameHistory (.unavailable reason detail) (.unavailable reason detail)
  | present {records records' : List BundleRecord} (checkpoint : BundleCheckpoint)
      {anchor anchor' : Option AnchorReceipt} :
    List.Forall₂ SameRecord records records' → Option.Rel SameAnchor anchor anchor' →
    SameHistory (.present records checkpoint anchor) (.present records' checkpoint anchor')

/-- Equal in every field except the signature, times in microseconds. -/
structure SameBundle (a b : ProofBundle) : Prop where
  format : a.format = b.format
  formatVersion : a.formatVersion = b.formatVersion
  object : SameObject a.object b.object
  payloadSha256 : a.payloadSha256 = b.payloadSha256
  history : SameHistory a.history b.history
  deployment : a.deployment = b.deployment

/-! ## Texts and lists that fit -/

def TextFits (v : String) : Prop := (asBytes v).length < 2 ^ 32

instance (v : String) : Decidable (TextFits v) := inferInstanceAs (Decidable (_ < _))

/-- The texts of a record, and the number of its steps. -/
def BundleRecord.Fits (r : BundleRecord) : Prop :=
  (∀ v ∈ [r.operation, r.principal, r.result, r.previousHash, r.recordHash], TextFits v) ∧
    r.inclusionPath.steps.length < 2 ^ 32

def BundleHistory.Fits : BundleHistory → Prop
  | .unavailable _ detail => TextFits detail
  | .present records checkpoint anchor =>
    records.length < 2 ^ 32 ∧ (∀ r ∈ records, r.Fits) ∧ TextFits checkpoint.root ∧
      TextFits checkpoint.previousCheckpointHash ∧ ∀ a ∈ anchor, TextFits a.kind ∧ TextFits a.receipt

/-- All texts and lists of a bundle are shorter than `2 ^ 32`. -/
structure ProofBundle.Fits (b : ProofBundle) : Prop where
  texts : ∀ v ∈ [b.format, b.object.bucket, b.object.key, b.object.versionId, b.payloadSha256, b.deployment.algorithm,
    b.deployment.publicKey, b.deployment.keyId], TextFits v
  contentType : ∀ v ∈ b.object.contentType, TextFits v
  history : b.history.Fits

/-! ## One lemma for each part -/

theorem tells_text {v v' : String} (hv : TextFits v) (hv' : TextFits v') : Tells putStr v v' :=
  tells_putStr (apart_of_fits hv hv')

theorem tells_u64 (n n' : UInt64) : Tells putU64 n n' := tells_uint64 n n'

theorem shows_time (t t' : DateTime) : Shows putTime SameTime t t' := fun x y h => tells_micros _ _ x y h

theorem tells_step (s s' : PathStep Digest32) : Tells putStep s s' := by
  intro x y h
  obtain ⟨hside, h⟩ := List.cons.inj h
  have hshort : ∀ d : Digest32, d.bytes.length < 2 ^ 32 := fun d => by rw [d.length_bytes]; decide
  obtain ⟨hhash, hxy⟩ := tells_putBytes (apart_of_fits (hshort _) (hshort _)) x y h
  have hsame : s.side = s'.side := by
    cases hs : s.side <;> cases hs' : s'.side <;> rw [hs, hs'] at hside <;> first | rfl | exact absurd hside (by decide)
  cases s
  cases s'
  exact ⟨congr (congrArg PathStep.mk hsame) (Digest32.ext hhash), hxy⟩

theorem shows_record {r r' : BundleRecord} (hr : r.Fits) (hr' : r'.Fits) : Shows putRecord SameRecord r r' := by
  intro x y h
  have htext : ∀ {v v'}, v ∈ [r.operation, r.principal, r.result, r.previousHash, r.recordHash] →
      v' ∈ [r'.operation, r'.principal, r'.result, r'.previousHash, r'.recordHash] → Tells putStr v v' :=
    fun hv hv' => tells_text (hr.1 _ hv) (hr'.1 _ hv')
  unfold putRecord at h
  simp only [List.append_assoc] at h
  obtain ⟨hsequence, h⟩ := tells_u64 _ _ _ _ h
  obtain ⟨htime, h⟩ := shows_time _ _ _ _ h
  obtain ⟨hoperation, h⟩ := htext (by simp) (by simp) _ _ h
  obtain ⟨hprincipal, h⟩ := htext (by simp) (by simp) _ _ h
  obtain ⟨hresult, h⟩ := htext (by simp) (by simp) _ _ h
  obtain ⟨hprevious, h⟩ := htext (by simp) (by simp) _ _ h
  obtain ⟨hhash, h⟩ := htext (by simp) (by simp) _ _ h
  obtain ⟨hindex, h⟩ := tells_u64 _ _ _ _ h
  obtain ⟨hsteps, hxy⟩ := shows_counted (apart_of_fits hr.2 hr'.2) (fun s _ s' _ => tells_step s s') x y h
  rw [List.forall₂_eq_eq_eq] at hsteps
  have hproved : r.toHistoryRecord = r'.toHistoryRecord := by
    have hpath : r.inclusionPath = r'.inclusionPath := by
      cases hp : r.inclusionPath
      cases hp' : r'.inclusionPath
      simp only [hp, hp'] at hindex hsteps
      rw [hindex, hsteps]
    cases hp : r.toHistoryRecord
    cases hp' : r'.toHistoryRecord
    simp only [hp, hp'] at hsequence hprevious hhash hpath
    rw [hsequence, hprevious, hhash, hpath]
  exact ⟨⟨hproved, htime, hoperation, hprincipal, hresult⟩, hxy⟩

theorem tells_checkpoint {c c' : BundleCheckpoint} (hroot : TextFits c.root ∧ TextFits c'.root)
    (hprevious : TextFits c.previousCheckpointHash ∧ TextFits c'.previousCheckpointHash) :
    Tells putCheckpoint c c' := by
  intro x y h
  unfold putCheckpoint at h
  simp only [List.append_assoc] at h
  obtain ⟨hsequence, h⟩ := tells_u64 _ _ _ _ h
  obtain ⟨hfrom, h⟩ := tells_u64 _ _ _ _ h
  obtain ⟨hto, h⟩ := tells_u64 _ _ _ _ h
  obtain ⟨hcount, h⟩ := tells_u64 _ _ _ _ h
  obtain ⟨hsameRoot, h⟩ := tells_text hroot.1 hroot.2 _ _ h
  obtain ⟨hsamePrevious, hxy⟩ := tells_text hprevious.1 hprevious.2 _ _ h
  obtain ⟨⟨sequence, fromSequence, toSequence, leafCount, root⟩, previous⟩ := c
  obtain ⟨⟨sequence', fromSequence', toSequence', leafCount', root'⟩, previous'⟩ := c'
  simp only at hsequence hfrom hto hcount hsameRoot hsamePrevious
  rw [hsequence, hfrom, hto, hcount, hsameRoot, hsamePrevious]
  exact ⟨rfl, hxy⟩

theorem shows_anchor {a a' : AnchorReceipt} (ha : TextFits a.kind ∧ TextFits a.receipt)
    (ha' : TextFits a'.kind ∧ TextFits a'.receipt) : Shows putAnchor SameAnchor a a' := by
  intro x y h
  unfold putAnchor at h
  simp only [List.append_assoc] at h
  obtain ⟨hkind, h⟩ := tells_text ha.1 ha'.1 _ _ h
  obtain ⟨hreceipt, h⟩ := tells_text ha.2 ha'.2 _ _ h
  obtain ⟨htime, hxy⟩ := shows_tagged (fun t _ t' _ => shows_time t t') _ _ h
  exact ⟨⟨hkind, hreceipt, htime⟩, hxy⟩

theorem HistoryUnavailable.label_fits (reason : HistoryUnavailable) : TextFits reason.label := by
    cases reason <;> decide

theorem HistoryUnavailable.label_inj {reason reason' : HistoryUnavailable} (h : reason.label = reason'.label) :
    reason = reason' := by
  cases reason <;> cases reason' <;> first | rfl | exact absurd h (by decide)

theorem shows_history {h h' : BundleHistory} (hf : h.Fits) (hf' : h'.Fits) : Shows putHistory SameHistory h h' := by
  intro x y he
  cases h with
  | unavailable reason detail =>
    cases h' with
    | present records' checkpoint' anchor' => exact absurd (List.cons.inj he).1 (by decide)
    | unavailable reason' detail' =>
      have htail := (List.cons.inj he).2
      simp only [List.append_eq, List.append_assoc] at htail
      obtain ⟨hlabel, hrest⟩ := tells_text reason.label_fits reason'.label_fits _ _ htail
      obtain rfl := HistoryUnavailable.label_inj hlabel
      obtain ⟨rfl, hxy⟩ := tells_text hf hf' _ _ hrest
      exact ⟨.unavailable _ _, hxy⟩
  | present records checkpoint anchor =>
    cases h' with
    | unavailable reason' detail' => exact absurd (List.cons.inj he).1 (by decide)
    | present records' checkpoint' anchor' =>
      obtain ⟨hcount, hrecords, hroot, hprevious, hanchor⟩ := hf
      obtain ⟨hcount', hrecords', hroot', hprevious', hanchor'⟩ := hf'
      have htail := (List.cons.inj he).2
      simp only [List.append_eq, List.append_assoc] at htail
      obtain ⟨hsame, hrest⟩ := shows_counted (apart_of_fits hcount hcount')
        (fun r hr r' hr' => shows_record (hrecords r hr) (hrecords' r' hr')) _ _ htail
      obtain ⟨hcheckpoint, hlast⟩ := tells_checkpoint ⟨hroot, hroot'⟩ ⟨hprevious, hprevious'⟩ _ _ hrest
      obtain ⟨hreceipt, hxy⟩ :=
        shows_tagged (fun a ha a' ha' => shows_anchor (hanchor a ha) (hanchor' a' ha')) _ _ hlast
      rw [hcheckpoint]
      exact ⟨.present _ hsame hreceipt, hxy⟩

/-! ## The bundle as a whole -/

/-- Two bundles with the same signed bytes, all texts and lists shorter than `2 ^ 32`, are equal in every field
except the signature, with times in microseconds. -/
theorem signedBytes_determine {a b : ProofBundle} (ha : a.Fits) (hb : b.Fits)
    (h : a.canonicalBytes = b.canonicalBytes) : SameBundle a b := by
  have htext : ∀ {v v'}, v ∈ [a.format, a.object.bucket, a.object.key, a.object.versionId, a.payloadSha256,
        a.deployment.algorithm, a.deployment.publicKey, a.deployment.keyId] →
      v' ∈ [b.format, b.object.bucket, b.object.key, b.object.versionId, b.payloadSha256, b.deployment.algorithm,
        b.deployment.publicKey, b.deployment.keyId] → Tells putStr v v' :=
    fun hv hv' => tells_text (ha.texts _ hv) (hb.texts _ hv')
  unfold ProofBundle.canonicalBytes putObject at h
  simp only [List.append_assoc] at h
  obtain ⟨-, h⟩ := List.append_inj h rfl
  obtain ⟨-, h⟩ := List.append_inj h rfl
  obtain ⟨hformat, h⟩ := htext (by simp) (by simp) _ _ h
  obtain ⟨hversion, h⟩ := List.append_inj h ((length_beBytes _ _).trans (length_beBytes _ _).symm)
  obtain ⟨hbucket, h⟩ := htext (by simp) (by simp) _ _ h
  obtain ⟨hkey, h⟩ := htext (by simp) (by simp) _ _ h
  obtain ⟨hversionId, h⟩ := htext (by simp) (by simp) _ _ h
  obtain ⟨hsize, h⟩ := tells_u64 _ _ _ _ h
  obtain ⟨htype, h⟩ := tells_tagged (fun v hv v' hv' => tells_text (ha.contentType v hv) (hb.contentType v' hv')) _ _ h
  obtain ⟨hcreated, h⟩ := shows_time _ _ _ _ h
  obtain ⟨hsha, h⟩ := htext (by simp) (by simp) _ _ h
  obtain ⟨hhistory, h⟩ := shows_history ha.history hb.history _ _ h
  obtain ⟨halgorithm, h⟩ := htext (by simp) (by simp) _ _ h
  obtain ⟨hpublic, h⟩ := htext (by simp) (by simp) _ _ h
  -- nothing follows the key's identifier
  obtain ⟨hkeyId, -⟩ := htext (v := a.deployment.keyId) (by simp) (by simp) [] [] (congrArg (· ++ []) h)
  have hformatVersion : a.formatVersion = b.formatVersion := by
    have hvalue := congrArg beValue hversion
    rw [beValue_beBytes a.formatVersion.toNat_lt, beValue_beBytes b.formatVersion.toNat_lt] at hvalue
    exact UInt16.toNat.inj hvalue
  have hdeployment : a.deployment = b.deployment := by
    cases hd : a.deployment
    cases hd' : b.deployment
    simp only [hd, hd'] at halgorithm hpublic hkeyId
    rw [halgorithm, hpublic, hkeyId]
  exact ⟨hformat, hformatVersion, ⟨hbucket, hkey, hversionId, hsize, htype, hcreated⟩, hsha, hhistory, hdeployment⟩

namespace Sample

/-- A record with a path of one step. -/
def bundleRecord : BundleRecord := ⟨first 5, .epoch, "s3:PUT", "system:test", "success"⟩

/-- A bundle with one record and an anchor, under the given signature. -/
def bundle (signature : String) : ProofBundle where
  format := "record-store.proof-bundle"
  formatVersion := 1
  object := ⟨"records", "a", "v1", 3, none, .epoch⟩
  payloadSha256 := "00"
  history := .present [bundleRecord] ⟨overTwo, "00"⟩ (some ⟨"rfc3161", "", some .epoch⟩)
  deployment := ⟨"ed25519", "00", "00"⟩
  signature := ⟨"ed25519", 1, signature⟩

theorem bundle_fits (signature : String) : (bundle signature).Fits where
  texts := by
    show ∀ v ∈ ["record-store.proof-bundle", "records", "a", "v1", "00", "ed25519", "00", "00"], TextFits v
    decide
  contentType := nofun
  history := by
    refine ⟨by decide, fun r hr => ?_, by decide +kernel, by decide, fun a ha => ?_⟩
    · obtain rfl := List.mem_singleton.mp hr
      exact ⟨by decide +kernel, by decide⟩
    · obtain rfl := Option.some.inj ha
      exact ⟨by decide, by decide⟩

end Sample

/-- Two bundles that differ in their signature only have the same signed bytes. -/
theorem signedBytes_determine_signature : (Sample.bundle "aa").signature ≠ (Sample.bundle "bb").signature ∧
    SameBundle (Sample.bundle "aa") (Sample.bundle "bb") := by
  refine ⟨fun h => ?_, signedBytes_determine (Sample.bundle_fits _) (Sample.bundle_fits _) rfl⟩
  have hvalue : "aa" = "bb" := congrArg BundleSignature.value h
  exact absurd hvalue (by decide)

end RecordStore.Proof

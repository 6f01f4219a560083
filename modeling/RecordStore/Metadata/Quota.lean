import RecordStore.Metadata.Runs

/-!
# Metadata.Quota — what the quotas of a bucket bound

A quota is checked where a command raises a bucket's totals and where the quota itself is set; `Within`
is the invariant these checks are there for.  The byte check adds saturating, so it bounds the true sum
for every limit but the largest.  The object check is missing where the removal of a delete marker makes
an older object current again.
-/

namespace RecordStore.Metadata

open RecordStore.Lib RecordStore.Core Tx

variable {s s' : Catalog} {env : Env} {c : MetadataCommand}

/-! ## Limits -/

section Limits

theorem Quota.allows_of_le {q : Quota} {a b : UInt64} (h : q.allows b = true) (hle : a ≤ b) : q.allows a = true := by
  cases q with
  | unlimited => rfl
  | limit value =>
    simp only [Quota.allows, decide_eq_true_eq] at h ⊢
    exact UInt64.le_trans hle h

theorem Quota.allows_zero (q : Quota) : q.allows 0 = true := by
  cases q with
  | unlimited => rfl
  | limit value => simp [Quota.allows]

theorem saturatingAdd_le {a b a' b' : UInt64} (h : a.toNat + b.toNat ≤ a'.toNat + b'.toNat) :
    saturatingAdd a b ≤ saturatingAdd a' b' := by
  rw [UInt64.le_iff_toNat_le, saturatingAdd_toNat, saturatingAdd_toNat]
  omega

/-- What the byte quota is compared with. -/
def BucketUsage.charged (u : BucketUsage) : UInt64 := saturatingAdd u.versionBytes u.multipartBytes

/-- Every bucket's quota allows its load. -/
def Within (quota : BucketQuota → Quota) (load : BucketUsage → UInt64) (s : Catalog) : Prop :=
  ∀ b record, s.readBucket b = some record → (quota record.quota).allows (load (s.readBucketUsage b)) = true

end Limits

/-! ## Where a bucket's quota comes from -/

section Source

theorem readBucket_insert (s : Catalog) (b b' : BucketId) (record : Bucket) :
    (s.buckets.insert (bucketKey b) record)[bucketKey b']? =
      if b' = b then some record else s.buckets[bucketKey b']? := by
  rw [Table.lookup_insert]
  exact if_congr ⟨bucketKey_inj, congrArg _⟩ rfl rfl

/-- A bucket record keeps its quota when the record is updated in another respect. -/
theorem quota_of_update {id b : BucketId} {update : Bucket → Except MetadataError Bucket} {new record : Bucket}
    (hquota : ∀ old new, update old = .ok new → new.quota = old.quota)
    (hret : Returns (updateBucketTx id update) s new s') (hb : s'.readBucket b = some record) :
    ∃ old, s.readBucket b = some old ∧ old.quota = record.quota := by
  obtain ⟨old, hold, hup, rfl⟩ := updateBucketTx_returns hret
  unfold Catalog.readBucket at hb
  rw [readBucket_insert] at hb
  split_ifs at hb with he
  · obtain rfl := Option.some.inj hb
    subst he
    exact ⟨old, hold, (hquota _ _ hup).symm⟩
  · exact ⟨record, hb, rfl⟩

/-- The object commands leave the bucket records alone. -/
theorem buckets_of_deleteObject {bucket : BucketId} {key : ObjectKey} {nm : NewDeleteMarker} {res : DeleteObjectResult}
    (hret : Returns (deleteObjectTx env bucket key nm) s res s') : s'.buckets = s.buckets := by
  obtain ⟨record, s₁, _, -, hdel, _, _, -, rfl⟩ := deleteObjectTx_returns hret
  by_cases hv : record.versioning = .disabled
  · rw [hv] at hdel
    obtain ⟨_, -, -, -, _, -, rfl⟩ := deleteCurrent_disabled hdel
    rfl
  · obtain ⟨_, _, -, -, -, -, _, -, rfl⟩ := deleteCurrent_marker hv hdel
    rfl

theorem buckets_of_deleteVersion {bucket : BucketId} {key : ObjectKey} {version : VersionId} {release : LockRelease}
    {res : Option DeleteVersionResult}
    (hret : Returns (deleteObjectVersionTx env bucket key version release) s res s') :
    s'.buckets = s.buckets := by
  rcases deleteObjectVersionTx_returns hret with rfl | ⟨r, res', -, -, hrem⟩
  · rfl
  · obtain ⟨-, _, _, _, _, _, _, -, rfl⟩ := removeExactVersion_returns hrem
    rfl

theorem buckets_of_removeUpload {id : UploadId} {requireCompleting : Bool} {at_ : DateTime}
    {res : MultipartCleanupResult} (hret : Returns (removeMultipartTx env id requireCompleting at_) s res s') :
    s'.buckets = s.buckets := by
  obtain ⟨_, _, _, _, -, -, -, -, -, -, rfl⟩ := removeMultipartTx_returns hret
  rfl

/-- After a command the quota of a bucket is the one it had, or the bucket is new and empty, or the quota
was just set and checked against the bucket's totals. -/
theorem quota_of_returns {out : MetadataOutcome} (hret : Returns (applyCommandTx env c) s out s') (hw : WF s)
    {b : BucketId} {record : Bucket} (hb : s'.readBucket b = some record) :
    (∃ old, s.readBucket b = some old ∧ old.quota = record.quota) ∨ s'.readBucketUsage b = .zero ∨
      (record.quota.bytes.allows (s'.readBucketUsage b).charged = true ∧
        record.quota.objects.allows (s'.readBucketUsage b).currentObjects = true) := by
  have keep : s'.buckets = s.buckets → ∃ old, s.readBucket b = some old ∧ old.quota = record.quota := by
    intro hsame
    unfold Catalog.readBucket at hb
    rw [hsame] at hb
    exact ⟨record, hb, rfl⟩
  cases applied_of_returns hret with
  | createBucket hcreate =>
    obtain ⟨-, -, -, t, e, -, rfl⟩ := createBucketTx_returns hcreate
    unfold Catalog.readBucket at hb
    rw [readBucket_insert] at hb
    split_ifs at hb with he
    · subst he
      right
      left
      exact readBucketUsage_eq (Table.lookup_insert_self _ _ _)
    · exact .inl ⟨record, hb, rfl⟩
  | @updateBucket _ id _ _ _ _ hq hset =>
    rcases hq with ⟨quota, rfl⟩ | hq
    · simp only [applyCommandTx, returns_map, setBucketQuotaTx, returns_bind, returns_read, returns_ensure,
        exists_and_left, exists_const, exists_eq_left, and_assoc] at hret
      obtain ⟨new, -, hbytes, hobjects, hset⟩ := hret
      obtain ⟨old, hold, hnew, rfl⟩ := updateBucketTx_returns hset
      obtain rfl := Except.ok.inj hnew
      unfold Catalog.readBucket at hb
      rw [readBucket_insert] at hb
      split_ifs at hb with he
      · obtain rfl := Option.some.inj hb
        subst he
        exact .inr (.inr ⟨hbytes, hobjects⟩)
      · exact .inl ⟨record, hb, rfl⟩
    · exact .inl (quota_of_update hq hset hb)
  | deleteBucket hdel =>
    obtain ⟨-, -, -, _, _, _, -, rfl⟩ := deleteBucketTx_returns hdel
    unfold Catalog.readBucket at hb
    exact .inl ⟨record, (Table.of_lookup_erase hb).2, rfl⟩
  | putObject hput =>
    obtain ⟨_, _, _, _, -, -, -, -, -, -, -, -, _, _, -, rfl⟩ := putObjectTx_returns hput
    exact .inl (keep rfl)
  | deleteObject hdel => exact .inl (keep (buckets_of_deleteObject hdel))
  | deleteObjectVersion hdel => exact .inl (keep (buckets_of_deleteVersion hdel))
  | putObjectLock hlock =>
    obtain ⟨_, _, _, _, _, -, -, -, -, -, -, -, rfl⟩ := putObjectLockTx_returns hlock
    exact .inl (keep rfl)
  | createUpload hcreate =>
    obtain ⟨-, -, rfl⟩ := createMultipartUploadTx_returns hcreate
    exact .inl (keep rfl)
  | putPart hput =>
    obtain ⟨_, _, _, _, -, -, -, -, -, -, -, rfl⟩ := putMultipartPartTx_returns hput
    exact .inl (keep rfl)
  | beginCompletion hbegin =>
    obtain ⟨_, _, -, -, rfl, rfl⟩ := beginMultipartCompletionTx_returns hbegin
    exact .inl (keep rfl)
  | removeUpload hrem => exact .inl (keep (buckets_of_removeUpload hrem))
  | recover hrec => exact .inl (keep (recover_keeps (fun s => s.buckets) (by intros; rfl) hw hrec))
  | completeCleanup | aside => exact .inl (keep rfl)

end Source

/-! ## What a command does to the totals -/

section Totals

/-- A command that wrote one usage row moved the totals of one bucket. -/
theorem readBucketUsage_of_insert {bucket : BucketId} {u : BucketUsage}
    (h : s'.bucketUsage = s.bucketUsage.insert (bucketKey bucket) u) (b : BucketId) :
    s'.readBucketUsage b = if b = bucket then u else s.readBucketUsage b := by
  rw [← readBucketUsage_insert]
  unfold Catalog.readBucketUsage
  rw [h]

/-- The totals of a bucket after an exchange, in numbers. -/
theorem Exchanges.total {bucket : BucketId} {previous current : Option ObjectMetadata}
    {removed new : Option ObjectVersionRecord} (hx : Exchanges s s' bucket previous current removed new)
    (h : Accounted s) (h' : Accounted s') (b : BucketId) (m : Meter) :
    ((m.of (s'.readBucketUsage b)).toNat : Int) =
      (m.of (s.readBucketUsage b)).toNat + if b = bucket then exchange previous current removed new m else 0 := by
  rw [h.bucket, h'.bucket]
  exact hx.stored b m

/-- An exchange that brings no bytes charges no more. -/
theorem Exchanges.charged_le {bucket : BucketId} {previous current : Option ObjectMetadata}
    {removed new : Option ObjectVersionRecord} (hx : Exchanges s s' bucket previous current removed new)
    (hnew : bytesOf new = 0) (h : Accounted s) (h' : Accounted s') (b : BucketId) :
    (s'.readBucketUsage b).charged ≤ (s.readBucketUsage b).charged := by
  have hv := hx.total h h' b .versionBytes
  have hp := hx.total h h' b .multipart
  apply saturatingAdd_le
  simp only [Meter.of, exchange, hnew, ite_self, UInt64.toNat_zero] at hv hp
  split_ifs at hv <;> omega

/-- How many current objects an exchange leaves. -/
theorem Exchanges.objects_eq {bucket : BucketId} {previous current : Option ObjectMetadata}
    {removed new : Option ObjectVersionRecord} (hx : Exchanges s s' bucket previous current removed new)
    (h : Accounted s) (h' : Accounted s') (b : BucketId) :
    ((s'.readBucketUsage b).currentObjects.toNat : Int) = (s.readBucketUsage b).currentObjects.toNat +
      if b = bucket then ((ofBool current.isSome).toNat : Int) - (ofBool previous.isSome).toNat else 0 :=
  hx.total h h' b .objects

/-- The command removes the current delete marker of a key of the bucket and the version next in line is an
object. -/
def RevivesObject (s : Catalog) (c : MetadataCommand) (b : BucketId) : Prop :=
  ∃ key version release r, c = .deleteObjectVersion b key version release ∧ s.versions[version.bytes]? = some r ∧
    s.objects[objectKey b key]? = none ∧ s.currentVersion (objectKey b key) = some version ∧
    (((s.removeVersion r).latestVersion b key).bind fun next => next.asObject).isSome = true

/-- The totals of a bucket after a command: each is no higher, or was checked against its quota, or one
object was revived. -/
structure TotalsStep (s s' : Catalog) (c : MetadataCommand) (b : BucketId) : Prop where
  charged : (s'.readBucketUsage b).charged ≤ (s.readBucketUsage b).charged ∨
    ∀ record, s'.readBucket b = some record → record.quota.bytes.allows (s'.readBucketUsage b).charged = true
  objects : (s'.readBucketUsage b).currentObjects ≤ (s.readBucketUsage b).currentObjects ∨
    (∀ record, s'.readBucket b = some record →
      record.quota.objects.allows (s'.readBucketUsage b).currentObjects = true) ∨
    (RevivesObject s c b ∧
      (s'.readBucketUsage b).currentObjects.toNat = (s.readBucketUsage b).currentObjects.toNat + 1)

theorem TotalsStep.same {b : BucketId} (h : s'.readBucketUsage b = s.readBucketUsage b) : TotalsStep s s' c b := by
  refine ⟨.inl ?_, .inl ?_⟩ <;> rw [h] <;> exact UInt64.le_refl _

theorem TotalsStep.zero {b : BucketId} (h : s'.readBucketUsage b = .zero) : TotalsStep s s' c b := by
  refine ⟨.inl ?_, .inl ?_⟩ <;> rw [h] <;> exact UInt64.zero_le

/-- The usage row of a bucket was written with totals that its byte quota allows. -/
theorem TotalsStep.checked {b : BucketId} {u : BucketUsage} (h : s'.readBucketUsage b = u)
    (hbytes : ∀ record, s'.readBucket b = some record → record.quota.bytes.allows u.charged = true)
    (hobjects : u.currentObjects ≤ (s.readBucketUsage b).currentObjects ∨
      ∀ record, s'.readBucket b = some record → record.quota.objects.allows u.currentObjects = true) :
    TotalsStep s s' c b := by
  subst h
  exact ⟨.inr hbytes, hobjects.imp id .inl⟩

/-- The removal of an upload charges no more and leaves the objects. -/
theorem totals_removeUpload {id : UploadId} {requireCompleting : Bool} {at_ : DateTime}
    {res : MultipartCleanupResult} (hret : Returns (removeMultipartTx env id requireCompleting at_) s res s')
    (b : BucketId) : (s'.readBucketUsage b).charged ≤ (s.readBucketUsage b).charged ∧
      (s'.readBucketUsage b).currentObjects ≤ (s.readBucketUsage b).currentObjects := by
  obtain ⟨upload, bytes, t, e, -, -, -, hle, -, -, rfl⟩ := removeMultipartTx_returns hret
  rw [readBucketUsage_of_insert (s := s) rfl b]
  split_ifs with hb
  · subst hb
    have hsub := UInt64.toNat_sub_of_le _ _ hle
    refine ⟨?_, UInt64.le_refl _⟩
    apply saturatingAdd_le
    simp only [hsub]
    omega
  · exact ⟨UInt64.le_refl _, UInt64.le_refl _⟩

theorem Applied.totals (happ : Applied env s c s') (hs : Sound s) (hs' : Sound s')
    (hfresh : ∀ v, c.newVersion? = some v → s.versions[v.bytes]? = none) (b : BucketId) : TotalsStep s s' c b := by
  have same : s'.bucketUsage = s.bucketUsage → TotalsStep s s' c b := by
    intro hu
    apply TotalsStep.same
    unfold Catalog.readBucketUsage
    rw [hu]
  cases happ with
  | @createBucket bucket _ _ hret =>
    obtain ⟨-, -, -, _, _, -, rfl⟩ := createBucketTx_returns hret
    have hu := readBucketUsage_insert s bucket.id b .zero
    by_cases hk : b = bucket.id
    · rw [if_pos hk] at hu
      exact .zero hu
    · rw [if_neg hk] at hu
      exact .same hu
  | updateBucket _ _ hret =>
    obtain ⟨_, -, -, rfl⟩ := updateBucketTx_returns hret
    exact same rfl
  | @deleteBucket name at_ bucket _ hret =>
    obtain ⟨-, -, -, _, _, _, -, rfl⟩ := deleteBucketTx_returns hret
    by_cases hk : bucketKey b = bucketKey bucket.id
    · apply TotalsStep.zero
      unfold Catalog.readBucketUsage
      rw [hk, Table.lookup_erase_self]
      rfl
    · apply TotalsStep.same
      unfold Catalog.readBucketUsage
      rw [Table.lookup_erase, if_neg hk]
  | @putObject m lock origin res _ hret =>
    obtain ⟨bucket, _, _, u', hb, -, -, -, hbytes, hobjects, -, -, _, _, -, rfl⟩ := putObjectTx_returns hret
    have hu := readBucketUsage_insert s m.bucketId b u'
    by_cases hk : b = m.bucketId
    · rw [if_pos hk] at hu
      have hrec : ∀ record, s.readBucket b = some record → record = bucket := by
        intro record hr
        rw [hk, hb] at hr
        exact (Option.some.inj hr).symm
      refine .checked hu (fun record hr => ?_) (.inr fun record hr => ?_)
      · rw [hrec record hr]
        exact hbytes
      · rw [hrec record hr]
        exact hobjects
    · rw [if_neg hk] at hu
      exact .same hu
  | deleteObject hret =>
    obtain ⟨removed, new, hnew, hx⟩ := deleteObject_exchanges hs.wf hret (hfresh _ rfl)
    have hobjects := hx.objects_eq hs.accounted hs'.accounted b
    refine ⟨.inl (hx.charged_le hnew hs.accounted hs'.accounted b), .inl ?_⟩
    rw [UInt64.le_iff_toNat_le]
    simp only [Option.isSome_none, ofBool, Bool.false_eq_true, if_false, UInt64.toNat_zero] at hobjects
    split_ifs at hobjects <;> omega
  | @deleteObjectVersion bucket key version release _ _ hret =>
    rcases deleteObjectVersionTx_returns hret with rfl | ⟨r, res', hr, hm, hrem⟩
    · exact .same rfl
    · rcases removeExact_exchanges hs.wf hr hm hrem with ⟨hcur, hx⟩ | hx
      · refine ⟨.inl (hx.charged_le rfl hs.accounted hs'.accounted b), ?_⟩
        have hobjects := hx.objects_eq hs.accounted hs'.accounted b
        rw [UInt64.le_iff_toNat_le]
        by_cases hb : b = bucket
        · subst hb
          rw [if_pos rfl] at hobjects
          cases hprev : s.objects[objectKey b key]? with
          | some m =>
            left
            rw [hprev] at hobjects
            simp only [ofBool, Option.isSome_some, if_true, UInt64.reduceToNat] at hobjects
            split_ifs at hobjects <;> simp at hobjects <;> omega
          | none =>
            rw [hprev] at hobjects
            by_cases hnext : (((s.removeVersion r).latestVersion b key).bind fun next => next.asObject).isSome = true
            · refine .inr (.inr ⟨⟨key, version, release, r, rfl, hr, hprev, hcur, hnext⟩, ?_⟩)
              rw [hnext] at hobjects
              simp [ofBool] at hobjects
              omega
            · left
              rw [Bool.not_eq_true] at hnext
              rw [hnext] at hobjects
              simp [ofBool] at hobjects
              omega
        · left
          rw [if_neg hb] at hobjects
          omega
      · have hobjects := hx.objects_eq hs.accounted hs'.accounted b
        refine ⟨.inl (hx.charged_le rfl hs.accounted hs'.accounted b), .inl ?_⟩
        rw [UInt64.le_iff_toNat_le]
        split_ifs at hobjects <;> omega
  | putObjectLock hret =>
    obtain ⟨_, _, _, _, _, -, -, -, -, -, -, -, rfl⟩ := putObjectLockTx_returns hret
    exact same rfl
  | createUpload hret =>
    obtain ⟨-, -, rfl⟩ := createMultipartUploadTx_returns hret
    exact same rfl
  | putPart hret =>
    obtain ⟨upload, bucket, proposed, _, -, -, hb, -, -, hbytes, -, rfl⟩ := putMultipartPartTx_returns hret
    have hu := readBucketUsage_insert s upload.bucketId b
      { s.readBucketUsage upload.bucketId with multipartBytes := proposed }
    by_cases hk : b = upload.bucketId
    · rw [if_pos hk] at hu
      subst hk
      refine .checked hu (fun record hr => ?_) (.inl (UInt64.le_refl _))
      obtain rfl := Option.some.inj (hb.symm.trans hr)
      exact hbytes
    · rw [if_neg hk] at hu
      exact .same hu
  | beginCompletion hret =>
    obtain ⟨_, _, -, -, rfl, rfl⟩ := beginMultipartCompletionTx_returns hret
    exact same rfl
  | removeUpload hret =>
    obtain ⟨h1, h2⟩ := totals_removeUpload hret b
    exact ⟨.inl h1, .inl h2⟩
  | recover hret =>
    obtain ⟨-, h1, h2⟩ := recover_preserves
      (Q := fun s₀ => WF s₀ ∧ (s₀.readBucketUsage b).charged ≤ (s.readBucketUsage b).charged ∧
        (s₀.readBucketUsage b).currentObjects ≤ (s.readBucketUsage b).currentObjects)
      (fun _ h => h.1)
      (by
        rintro s₀ s₁ id res ⟨hw₀, h1, h2⟩ hrem
        obtain ⟨h3, h4⟩ := totals_removeUpload hrem b
        exact ⟨hw₀.removeUpload hrem, UInt64.le_trans h3 h1, UInt64.le_trans h4 h2⟩)
      (by
        rintro s₀ up ⟨hw₀, h1, h2⟩ hup
        exact ⟨hw₀.setState hup _, h1, h2⟩)
      ⟨hs.wf, UInt64.le_refl _, UInt64.le_refl _⟩ hret
    exact ⟨.inl h1, .inl h2⟩
  | completeCleanup => exact same rfl
  | aside => exact same rfl

end Totals

/-! ## Runs -/

section Runs

variable {cmds : List MetadataCommand}

/-- One command keeps a quota whose load it does not raise or checked. -/
theorem within_step {quota : BucketQuota → Quota} {load : BucketUsage → UInt64} (hzero : load .zero = 0)
    (hset : ∀ q u, q.bytes.allows (BucketUsage.charged u) = true → q.objects.allows u.currentObjects = true →
      (quota q).allows (load u) = true)
    {out : MetadataOutcome} (hret : Returns (applyCommandTx env c) s out s') (hw : WF s) (h : Within quota load s)
    (hload : ∀ b record, s'.readBucket b = some record → load (s'.readBucketUsage b) ≤ load (s.readBucketUsage b) ∨
      (quota record.quota).allows (load (s'.readBucketUsage b)) = true) : Within quota load s' := by
  intro b record hb
  rcases quota_of_returns hret hw hb with ⟨old, hold, hq⟩ | hnew | ⟨hbytes, hobjects⟩
  · rcases hload b record hb with hle | hallowed
    · have hold := h b old hold
      rw [hq] at hold
      exact Quota.allows_of_le hold hle
    · exact hallowed
  · rw [hnew, hzero]
    exact Quota.allows_zero _
  · exact hset _ _ hbytes hobjects

theorem within_empty (quota : BucketQuota → Quota) (load : BucketUsage → UInt64) : Within quota load .empty := by
  intro b record hb
  cases (Table.lookup_empty _).symm.trans hb

/-- The totals a command of a fresh run leaves. -/
theorem totals_run (hf : FreshVersions (cmds ++ [c])) {out : MetadataOutcome}
    (hret : Returns (applyCommandTx env c) (run env cmds) out s') (b : BucketId) :
    TotalsStep (run env cmds) s' c b := by
  have hs := (sound_run env cmds hf.of_append).1
  have happ := applied_of_returns hret
  exact happ.totals hs (hs.step happ (fresh_next hf)) (fresh_next hf) b

theorem within_bytes_run (env : Env) (hf : FreshVersions cmds) :
    Within (·.bytes) BucketUsage.charged (run env cmds) := by
  induction cmds using List.reverseRecOn with
  | nil => exact within_empty _ _
  | append_singleton cmds c ih =>
    rw [run_append]
    refine commit_preserves (ih hf.of_append) fun out s' hret => ?_
    refine within_step rfl (fun _ _ hb _ => hb) hret (sound_run env cmds hf.of_append).1.wf (ih hf.of_append) ?_
    intro b record hb
    exact (totals_run hf hret b).charged.imp id fun h => h record hb

/-- In every run of fresh commands a bucket's stored and staged bytes respect every limit below the largest
word, and a refused command leaves the catalog as it was. -/
theorem byte_quota_kept (env : Env) (cmds : List MetadataCommand) (hf : FreshVersions cmds) :
    (∀ b record limit, (run env cmds).readBucket b = some record → record.quota.bytes = .limit limit →
      limit ≠ 0xffffffffffffffff →
      ((run env cmds).readBucketUsage b).versionBytes.toNat + ((run env cmds).readBucketUsage b).multipartBytes.toNat ≤
        limit.toNat) ∧
    ∀ c e s', commit (applyCommandTx env c) (run env cmds) = (.error e, s') → s' = run env cmds := by
  refine ⟨fun b record limit hb hq hlimit => ?_, fun c e s' hc => (commit_eq_error.mp hc).2⟩
  have hallows := within_bytes_run env hf b record hb
  simp only [hq, Quota.allows, decide_eq_true_eq] at hallows
  rw [UInt64.le_iff_toNat_le, BucketUsage.charged, saturatingAdd_toNat] at hallows
  have hlt := limit.toNat_lt
  have hne : limit.toNat ≠ 2 ^ 64 - 1 := fun e => hlimit (UInt64.toNat_inj.mp e)
  omega

/-- A bucket with quotas. -/
def Sample.limited (bytes objects : Quota) : Bucket :=
  { Sample.bucket .enabled none with quota := ⟨bytes, objects⟩ }

/-- An upload to that bucket. -/
def Sample.upload : MultipartUpload where
  id := .ofNat 30
  bucketId := .ofNat 1
  key := Sample.key
  contentType := none
  customMetadata := ∅
  objectLock := none
  initiatedAt := .epoch
  state := .active

/-- Its first part. -/
def Sample.part (size : UInt64) : UploadedPart where
  uploadId := .ofNat 30
  number := Sample.partNumber
  objectId := .ofNat 40
  size := size
  checksum := Sample.checksum
  payloadFormat := .plaintext
  etag := Sample.etag
  modifiedAt := .epoch

/-- The largest limit, an object of that size, and one more staged byte. -/
def Sample.saturated : List MetadataCommand :=
  [.createBucket (Sample.limited (.limit 0xffffffffffffffff) .unlimited),
    .putObject (Sample.object 10 20 0xffffffffffffffff) none .direct, .createMultipartUpload Sample.upload,
    .putMultipartPart (Sample.part 1)]

/-- The saturated sum is within the limit, the sum is not. -/
theorem byte_quota_saturated :
    FreshVersions Sample.saturated ∧
    ((run Sample.env Sample.saturated).readBucket (.ofNat 1)).map (·.quota.bytes) = some (.limit 0xffffffffffffffff) ∧
    (0xffffffffffffffff : UInt64).toNat <
      ((run Sample.env Sample.saturated).readBucketUsage (.ofNat 1)).versionBytes.toNat +
        ((run Sample.env Sample.saturated).readBucketUsage (.ofNat 1)).multipartBytes.toNat := by
  refine ⟨by decide, ?_, ?_⟩
  · decide +kernel
  · decide +kernel

/-- A bucket limited to ten bytes with an object of five and a part of four. -/
def Sample.staged : List MetadataCommand :=
  [.createBucket (Sample.limited (.limit 10) .unlimited), .putObject (Sample.object 10 20 5) none .direct,
    .createMultipartUpload Sample.upload, .putMultipartPart (Sample.part 4)]

theorem byte_quota_kept_staged :
    ((run Sample.env Sample.staged).readBucketUsage (.ofNat 1)).versionBytes.toNat +
      ((run Sample.env Sample.staged).readBucketUsage (.ofNat 1)).multipartBytes.toNat ≤ 10 ∧
    run Sample.env (Sample.staged ++ [.putObject (Sample.object 11 21 2) none .direct]) =
      run Sample.env Sample.staged := by
  obtain ⟨hbytes, hrefused⟩ := byte_quota_kept Sample.env Sample.staged (by decide)
  have hrec : ∃ record, (run Sample.env Sample.staged).readBucket (.ofNat 1) = some record ∧
      record.quota.bytes = .limit 10 := by
    have hq : ((run Sample.env Sample.staged).readBucket (.ofNat 1)).map (·.quota.bytes) = some (.limit 10) := by
      decide +kernel
    exact Option.map_eq_some_iff.mp hq
  obtain ⟨record, hrec, hlimit⟩ := hrec
  refine ⟨hbytes _ record 10 hrec hlimit (by decide), ?_⟩
  have hno : (commit (applyCommandTx Sample.env (.putObject (Sample.object 11 21 2) none .direct))
      (run Sample.env Sample.staged)).1.isOk = false := by decide +kernel
  rw [run_append]
  rcases returns_or_fails (applyCommandTx Sample.env (.putObject (Sample.object 11 21 2) none .direct))
    (run Sample.env Sample.staged) with ⟨out, s', hret⟩ | ⟨e, hfail⟩
  · rw [commit_of_returns hret] at hno
    cases hno
  · exact hrefused _ e _ (by rw [step, commit_of_fails hfail])

/-! ## Object quotas -/

/-- The command revives an object in a bucket that already holds as many objects as its quota allows. -/
def RevivesPastQuota (s : Catalog) (c : MetadataCommand) : Prop :=
  ∃ b record limit, RevivesObject s c b ∧ s.readBucket b = some record ∧ record.quota.objects = .limit limit ∧
    limit.toNat ≤ s.objects.countOf fun m => m.bucketId = b

theorem within_objects_run (env : Env) (hf : FreshVersions cmds)
    (hno : ∀ before c, before ++ [c] <+: cmds → ¬ RevivesPastQuota (run env before) c) :
    Within (·.objects) (·.currentObjects) (run env cmds) := by
  induction cmds using List.reverseRecOn with
  | nil => exact within_empty _ _
  | append_singleton cmds c ih =>
    have hih := ih hf.of_append fun before c' hpre => hno before c' (hpre.trans (List.prefix_append cmds [c]))
    have hs := (sound_run env cmds hf.of_append).1
    rw [run_append]
    refine commit_preserves hih fun out s' hret => ?_
    refine within_step rfl (fun _ _ _ ho => ho) hret hs.wf hih ?_
    intro b record hb
    rcases (totals_run hf hret b).objects with hle | hallowed | ⟨hrevives, heq⟩
    · exact .inl hle
    · exact .inr (hallowed record hb)
    · -- the revived object fits under the limit
      right
      obtain ⟨key, version, release, r, rfl, -⟩ := id hrevives
      obtain ⟨_, -, hdel⟩ := returns_map.mp hret
      have hold : (run env cmds).readBucket b = some record := by
        unfold Catalog.readBucket at hb ⊢
        rw [← buckets_of_deleteVersion hdel]
        exact hb
      cases hq : record.quota.objects with
      | unlimited => rfl
      | limit limit =>
        have hlt : ¬ limit.toNat ≤ (run env cmds).objects.countOf fun m => m.bucketId = b := fun hle =>
          hno cmds _ (List.prefix_refl _) ⟨b, record, limit, hrevives, hold, hq, hle⟩
        have hcount : (run env cmds).objects.countOf (fun m => m.bucketId = b) =
            ((run env cmds).readBucketUsage b).currentObjects.toNat := (hs.accounted.bucket b .objects).symm
        rw [hcount] at hlt
        simp only [Quota.allows, decide_eq_true_eq]
        rw [UInt64.le_iff_toNat_le]
        omega

/-- In a run of fresh commands in which no removal of a delete marker revives an object in a full bucket, no
bucket holds more current objects than its quota allows. -/
theorem object_quota_kept (env : Env) (cmds : List MetadataCommand) (hf : FreshVersions cmds)
    (hno : ∀ before c, before ++ [c] <+: cmds → ¬ RevivesPastQuota (run env before) c) :
    ∀ b record limit, (run env cmds).readBucket b = some record → record.quota.objects = .limit limit →
      ((run env cmds).objects.countOf fun m => m.bucketId = b) ≤ limit.toNat := by
  intro b record limit hb hq
  have hallows := within_objects_run env hf hno b record hb
  simp only [hq, Quota.allows, decide_eq_true_eq] at hallows
  rw [UInt64.le_iff_toNat_le] at hallows
  have hcount : ((run env cmds).readBucketUsage b).currentObjects.toNat =
      (run env cmds).objects.countOf fun m => m.bucketId = b :=
    (sound_run env cmds hf).1.accounted.bucket b .objects
  rw [← hcount]
  exact hallows

/-- An object deleted, another written in its place under a limit of one, and the delete marker removed. -/
def Sample.revived : List MetadataCommand :=
  [.createBucket (Sample.limited .unlimited (.limit 1)), .putObject (Sample.object 10 20 5) none .direct,
    .deleteObject (.ofNat 1) Sample.key ⟨.ofNat 21, .epoch⟩,
    .putObject { Sample.object 11 22 7 with key := Sample.otherKey } none .direct,
    .deleteObjectVersion (.ofNat 1) Sample.key (.ofNat 21) ⟨.epoch, 0, false⟩]

/-- The bucket ends with two current objects. -/
theorem object_quota_exceeded :
    FreshVersions Sample.revived ∧
    ((run Sample.env Sample.revived).readBucket (.ofNat 1)).map (·.quota.objects) = some (.limit 1) ∧
    ((run Sample.env Sample.revived).objects.countOf fun m => m.bucketId = .ofNat 1) = 2 := by
  refine ⟨by decide, ?_, ?_⟩
  · decide +kernel
  · decide +kernel

/-- Before the delete marker is removed the quota holds. -/
theorem object_quota_kept_replaced :
    ((run Sample.env (Sample.revived.take 4)).objects.countOf fun m => m.bucketId = .ofNat 1) ≤ 1 := by
  have hrec : ∃ record, (run Sample.env (Sample.revived.take 4)).readBucket (.ofNat 1) = some record ∧
      record.quota.objects = .limit 1 := by
    have hq : ((run Sample.env (Sample.revived.take 4)).readBucket (.ofNat 1)).map (·.quota.objects) =
      some (.limit 1) := by
      decide +kernel
    exact Option.map_eq_some_iff.mp hq
  obtain ⟨record, hrec, hlimit⟩ := hrec
  refine object_quota_kept Sample.env (Sample.revived.take 4) (by decide) ?_ _ record 1 hrec hlimit
  rintro before c hpre ⟨b, _, _, ⟨key, version, release, r, rfl, -⟩, -⟩
  have hmem := hpre.subset (List.mem_append_right before (List.mem_singleton_self _))
  simp [Sample.revived] at hmem

end Runs

end RecordStore.Metadata

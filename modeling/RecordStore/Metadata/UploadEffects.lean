import RecordStore.Metadata.ObjectEffects

/-!
# Metadata.UploadEffects — what the other successful commands did

The inversion lemmas of the commands on buckets, lock records, multipart uploads, lifecycle rules and
the cleanup queue, in the form of `Metadata.ObjectEffects`.
-/

namespace RecordStore.Metadata

open RecordStore.Lib RecordStore.Core Tx

variable {s s' : Catalog} {env : Env}

/-! ## Buckets -/

section Buckets

theorem createBucketTx_returns {bucket : Bucket} {u : Unit} (h : Returns (createBucketTx env bucket) s u s') :
    checkNewBucket bucket = .ok () ∧ s.buckets[bucketKey bucket.id]? = none ∧
      s.bucketNames[bucket.name.value]? = none ∧
      ∃ t e, Shift s.counters t (only .buckets 1) ∧
      s' = { s with
        buckets := s.buckets.insert (bucketKey bucket.id) bucket
        bucketNames := s.bucketNames.insert bucket.name.value bucket
        bucketUsage := s.bucketUsage.insert (bucketKey bucket.id) .zero
        counters := t
        mutationEvents := e } := by
  unfold createBucketTx at h
  cases hc : checkNewBucket bucket with
  | error e =>
    rw [hc] at h
    simp only [refuse, returns_throw] at h
  | ok v =>
    rw [hc] at h
    simp only [returns_bind, returns_read, returns_ensure, returns_modify, exists_and_left, exists_const,
      exists_eq_left, and_assoc] at h
    obtain ⟨hnew, _, s₁, h1, h2⟩ := h
    obtain ⟨t, e, rfl, ht⟩ := journalEvent_returns h1
    obtain ⟨t', rfl, ht'⟩ := adjustCounter_returns (c := .buckets) h2
    simp only [Bool.or_eq_false_iff, Option.isSome_eq_false_iff, Option.isNone_iff_eq_none] at hnew
    exact ⟨rfl, hnew.1, hnew.2, t', e, (ht.trans ht').congr fun _ => zero_add _, rfl⟩

theorem updateBucketTx_returns {id : BucketId} {update : Bucket → Except MetadataError Bucket}
    {bucket : Bucket} (h : Returns (updateBucketTx id update) s bucket s') :
    ∃ old, s.readBucket id = some old ∧ update old = .ok bucket ∧
      s' = { s with
        buckets := s.buckets.insert (bucketKey id) bucket
        bucketNames := s.bucketNames.insert bucket.name.value bucket } := by
  simp only [updateBucketTx, returns_bind, returns_read, returns_okOr, exists_and_left, exists_eq_left,
    and_assoc] at h
  obtain ⟨old, hold, h⟩ := h
  refine ⟨old, hold, ?_⟩
  cases hu : update old with
  | error e =>
    rw [hu] at h
    simp only [refuse, returns_throw] at h
  | ok new =>
    rw [hu] at h
    simp only [returns_bind, returns_modify, returns_pure, exists_const, exists_eq_left] at h
    obtain ⟨rfl, rfl⟩ := h
    exact ⟨rfl, rfl⟩

theorem deleteBucketTx_returns {name : BucketName} {at_ : DateTime} {bucket : Bucket}
    (h : Returns (deleteBucketTx env name at_) s bucket s') :
    s.bucketNames[name.value]? = some bucket ∧ (s.readBucketUsage bucket.id).versions = 0 ∧
      s.hasMultipart bucket.id = false ∧
      ∃ t e rules, Shift s.counters t (only .buckets (-1)) ∧
      s' = { s with
        bucketNames := s.bucketNames.erase name.value
        buckets := s.buckets.erase (bucketKey bucket.id)
        bucketUsage := s.bucketUsage.erase (bucketKey bucket.id)
        lifecycleRules := rules
        counters := t
        mutationEvents := e } := by
  simp only [deleteBucketTx, returns_bind, returns_read, returns_okOr, returns_ensure, returns_modify,
    returns_pure, exists_and_left, exists_const, exists_eq_left, and_assoc] at h
  obtain ⟨b, hb, hbusy, _, s₁, h1, _, s₂, h2, rfl, rfl⟩ := h
  obtain ⟨t, rfl, ht⟩ := adjustCounter_returns (c := .buckets) h1
  obtain ⟨t', e, rfl, ht'⟩ := journalEvent_returns h2
  simp only [Bool.or_eq_false_iff, bne_eq_false_iff_eq] at hbusy
  exact ⟨hb, hbusy.1, hbusy.2, t', e, _, (ht.trans ht').congr fun _ => add_zero _, rfl⟩

end Buckets

/-! ## Lock records -/

section Locks

theorem putObjectLockTx_returns {bucket : BucketId} {key : ObjectKey} {version : VersionId}
    {requested updated : ObjectLockState} {release : LockRelease}
    (h : Returns (putObjectLockTx bucket key version requested release) s updated s') :
    ∃ record m n state c, s.readBucket bucket = some record ∧ record.objectLock.isSome = true ∧
      s.versions[version.bytes]? = some (.object m n) ∧ m.bucketId = bucket ∧ m.key = key ∧
      (s.readObjectLock version).withRetention requested.retention release.observedAt
        release.bypassGovernance = .ok state ∧
      updated = state.withLegalHold requested.legalHold ∧
      s' = { s with
        objectLocks := if updated.isUnlocked then s.objectLocks.erase (lockKey version)
          else s.objectLocks.insert (lockKey version) updated
        clock := c } := by
  simp only [putObjectLockTx, returns_bind, returns_read, returns_okOr, returns_ensure, returns_when,
    exists_and_left, exists_const, exists_eq_left, and_assoc] at h
  obtain ⟨record, hb, hl, r, hr, hm, hd, s₁, h1, h⟩ := h
  obtain ⟨c, rfl⟩ : ∃ c, s₁ = { s with clock := c } := by
    rcases h1 with ⟨-, h1⟩ | ⟨-, rfl⟩
    · exact observeClock_returns h1
    · exact ⟨_, rfl⟩
  cases r with
  | deleteMarker mk n => exact absurd hd (by simp [ObjectVersionRecord.isDeleteMarker])
  | object m n =>
    cases hw : (s.readObjectLock version).withRetention requested.retention release.observedAt
        release.bypassGovernance with
    | error e =>
      rw [hw] at h
      simp only [refuse, returns_throw] at h
    | ok state =>
      rw [hw] at h
      simp only [returns_bind, returns_modify, returns_pure, exists_const, exists_eq_left] at h
      obtain ⟨rfl, rfl⟩ := h
      refine ⟨record, m, n, state, c, hb, hl, hr, hm.1, hm.2, rfl, rfl, ?_⟩
      unfold Catalog.writeObjectLock
      split <;> rfl

end Locks

/-! ## Multipart uploads -/

section Multipart

theorem createMultipartUploadTx_returns {upload : MultipartUpload} {u : Unit}
    (h : Returns (createMultipartUploadTx upload) s u s') :
    (s.readBucket upload.bucketId).isSome = true ∧ s.multipart[upload.id.bytes]? = none ∧
      s' = { s with
        multipart := s.multipart.insert upload.id.bytes upload
        multipartOrder := s.multipartOrder.insert (multipartOrderKey upload) upload.id.bytes } := by
  simp only [createMultipartUploadTx, returns_bind, returns_read, returns_ensure, returns_modify,
    exists_and_left, exists_const, exists_eq_left, and_assoc] at h
  obtain ⟨hb, hn, rfl⟩ := h
  simp only [Option.isSome_eq_false_iff, Option.isNone_iff_eq_none] at hn
  exact ⟨hb, hn, rfl⟩

/-- The payload of a replaced part is queued for cleanup. -/
def queuePart (o : Option UploadedPart) (t : Table Bytes UInt8) : Table Bytes UInt8 :=
  o.elim t fun p => t.insert p.objectId.bytes 1

theorem putMultipartPartTx_returns {part : UploadedPart} {previous : Option UploadedPart}
    (h : Returns (putMultipartPartTx part) s previous s') :
    ∃ upload bucket proposed t, s.multipart[part.uploadId.bytes]? = some upload ∧ upload.state = .active ∧
      s.readBucket upload.bucketId = some bucket ∧ previous = s.parts[partKey part.uploadId part.number]? ∧
      checkedReplace (s.readBucketUsage upload.bucketId).multipartBytes (partSize? previous) part.size =
        some proposed ∧
      bucket.quota.bytes.allows (saturatingAdd (s.readBucketUsage upload.bucketId).versionBytes proposed) =
        true ∧
      Shift s.counters t (only .multipart (part.size.toNat - (partSize? previous).toNat)) ∧
      s' = { s with
        parts := s.parts.insert (partKey part.uploadId part.number) part
        bucketUsage := s.bucketUsage.insert (bucketKey upload.bucketId)
          { s.readBucketUsage upload.bucketId with multipartBytes := proposed }
        cleanup := queuePart previous s.cleanup
        counters := t } := by
  simp only [putMultipartPartTx, returns_bind, returns_read, returns_okOr, returns_ensure, returns_modify,
    returns_pure, exists_and_left, exists_const, exists_eq_left, and_assoc] at h
  obtain ⟨upload, hu, hact, bucket, hb, proposed, hp, hq, _, s₁, h1, _, s₂, h2, rfl, rfl⟩ := h
  obtain ⟨t, rfl, ht⟩ := adjustCounter_returns (c := .multipart) h1
  have hs₂ := queueCleanups_returns h2
  subst hs₂
  refine ⟨upload, bucket, proposed, t, hu, hact, hb, rfl, hp, hq, ht, ?_⟩
  unfold queuePart
  cases s.parts[partKey part.uploadId part.number]? <;> rfl

theorem beginMultipartCompletionTx_returns {id : UploadId} {objectId : ObjectId} {upload : MultipartUpload}
    (h : Returns (beginMultipartCompletionTx id objectId) s upload s') :
    ∃ old state, s.multipart[id.bytes]? = some old ∧ beginState old.state objectId = .ok state ∧
      upload = { old with state := state } ∧
      s' = { s with multipart := s.multipart.insert id.bytes upload } := by
  simp only [beginMultipartCompletionTx, returns_bind, returns_read, returns_okOr, exists_and_left,
    exists_eq_left, and_assoc] at h
  obtain ⟨old, hold, h⟩ := h
  cases hs : beginState old.state objectId with
  | error e =>
    rw [hs] at h
    simp only [refuse, returns_throw] at h
  | ok state =>
    rw [hs] at h
    simp only [returns_bind, returns_modify, returns_pure, exists_const, exists_eq_left] at h
    obtain ⟨rfl, rfl⟩ := h
    exact ⟨old, state, hold, hs, rfl, rfl⟩

theorem removeMultipartTx_returns {id : UploadId} {requireCompleting : Bool} {at_ : DateTime}
    {res : MultipartCleanupResult} (h : Returns (removeMultipartTx env id requireCompleting at_) s res s') :
    ∃ upload bytes t e, s.multipart[id.bytes]? = some upload ∧
      (requireCompleting = true → upload.state ≠ .active) ∧
      totalSize (s.listParts id) = some bytes ∧
      bytes ≤ (s.readBucketUsage upload.bucketId).multipartBytes ∧
      res = { parts := s.listParts id } ∧
      Shift s.counters t (only .multipart (-bytes.toNat)) ∧
      s' = { s with
        multipart := s.multipart.erase id.bytes
        multipartOrder := s.multipartOrder.erase (multipartOrderKey upload)
        parts := (s.listParts id).foldl (fun t part => t.erase (partKey id part.number)) s.parts
        bucketUsage := s.bucketUsage.insert (bucketKey upload.bucketId)
          { s.readBucketUsage upload.bucketId with
            multipartBytes := (s.readBucketUsage upload.bucketId).multipartBytes - bytes }
        cleanup := (s.listParts id).foldl (fun t part => t.insert part.objectId.bytes 1) s.cleanup
        counters := t
        mutationEvents := e } := by
  simp only [removeMultipartTx, returns_bind, returns_read, returns_okOr, returns_ensure, returns_modify,
    returns_when, returns_pure, exists_and_left, exists_const, exists_eq_left, and_assoc] at h
  obtain ⟨upload, hu, hreq, bytes, hbytes, hle, _, s₁, h1, _, s₂, h2, s₃, h3, rfl, rfl⟩ := h
  obtain ⟨t, rfl, ht⟩ := adjustCounter_returns (c := .multipart) h1
  have hs₂ := queueCleanups_returns h2
  subst hs₂
  rcases h3 with ⟨-, h3⟩ | ⟨-, rfl⟩
  · obtain ⟨t', e, rfl, ht'⟩ := journalEvent_returns h3
    exact ⟨upload, bytes, t', e, hu, hreq, hbytes, hle, rfl, (ht.trans ht').congr fun _ => add_zero _, rfl⟩
  · exact ⟨upload, bytes, t, _, hu, hreq, hbytes, hle, rfl, ht, rfl⟩

/-- Recovery of one upload either finishes it or makes it active again. -/
theorem recoverUpload_returns {upload : MultipartUpload} {parts : List UploadedPart}
    (h : Returns (recoverUpload env upload) s parts s') :
    s' = s ∨ (∃ res, Returns (removeMultipartTx env upload.id true .epoch) s res s') ∨
      s' = { s with multipart := s.multipart.insert upload.id.bytes { upload with state := .active } } := by
  unfold recoverUpload at h
  cases hs : upload.state with
  | active =>
    rw [hs] at h
    simp only [returns_pure] at h
    exact .inl h.2
  | completing objectId =>
    rw [hs] at h
    simp only [returns_bind, returns_read, returns_ite, returns_modify, returns_pure, exists_and_left,
      exists_const, exists_eq_left, and_assoc] at h
    rcases h with ⟨-, res, s₁, h, -, rfl⟩ | ⟨-, -, rfl⟩
    · exact .inr (.inl ⟨res, h⟩)
    · exact .inr (.inr rfl)

end Multipart

/-! ## Rules, cleanup and journal -/

section Rest

theorem putLifecycleRuleTx_returns {rule : LifecycleRule} {u : Unit}
    (h : Returns (putLifecycleRuleTx rule) s u s') :
    (s.readBucket rule.bucketId).isSome = true ∧ ∃ rules, s' = { s with lifecycleRules := rules } := by
  unfold putLifecycleRuleTx at h
  cases hv : rule.validate with
  | error e =>
    rw [hv] at h
    simp only [refuse, returns_throw] at h
  | ok v =>
    rw [hv] at h
    simp only [returns_bind, returns_read, returns_ensure, returns_modify, exists_and_left, exists_const,
      exists_eq_left, and_assoc] at h
    exact ⟨h.1, _, h.2⟩

theorem deleteLifecycleRuleTx_returns {id : LifecycleRuleId} {u : Unit}
    (h : Returns (deleteLifecycleRuleTx id) s u s') :
    ∃ rules, s' = { s with lifecycleRules := rules } := by
  simp only [deleteLifecycleRuleTx, returns_bind, returns_read, returns_ensure, returns_modify,
    exists_and_left, exists_const, exists_eq_left, and_assoc] at h
  exact ⟨_, h.2⟩

theorem pruneMutationEventsTx_returns {through : UInt64} {n : UInt64}
    (h : Returns (pruneMutationEventsTx through) s n s') : ∃ e, s' = { s with mutationEvents := e } := by
  simp only [pruneMutationEventsTx, returns_bind, returns_read, returns_modify, returns_pure,
    exists_and_left, exists_const, exists_eq_left, and_assoc] at h
  exact ⟨_, h.2⟩

end Rest

end RecordStore.Metadata

import RecordStore.Metadata.Ledger

/-!
# Metadata.ObjectEffects — what a successful object command did

One inversion lemma per command: the conditions under which it succeeds, the catalog it leaves as one
record update of the catalog it found, and how the counters moved.  Invariants are proved from these
lemmas and never look at the statements of a command again.
-/

namespace RecordStore.Metadata

open RecordStore.Lib RecordStore.Core Tx

variable {s s' : Catalog} {env : Env}

/-! ## Row changes of an optional version -/

section Rows

def dropVersion (o : Option ObjectVersionRecord) (t : Table Bytes ObjectVersionRecord) :
    Table Bytes ObjectVersionRecord := o.elim t fun r => t.erase r.versionId.bytes

def dropOrder (o : Option ObjectVersionRecord) (t : Table Bytes Bytes) : Table Bytes Bytes :=
  o.elim t fun r => t.erase (versionOrderKey r)

def dropLock (o : Option ObjectVersionRecord) (t : Table Bytes ObjectLockState) :
    Table Bytes ObjectLockState := o.elim t fun r => t.erase (lockKey r.versionId)

/-- The payload of a dropped object version is queued for cleanup. -/
def queuePayload (o : Option ObjectVersionRecord) (t : Table Bytes UInt8) : Table Bytes UInt8 :=
  (o.bind (·.asObject)).elim t fun m => t.insert m.id.bytes 1

/-- The lock record a new version is born with; an unlocked state leaves none. -/
def bornLock (version : VersionId) (o : Option ObjectLockState) (t : Table Bytes ObjectLockState) :
    Table Bytes ObjectLockState :=
  (o.filter fun state => !state.isUnlocked).elim t fun state => t.insert (lockKey version) state

/-- The payload bytes of an optional version. -/
def bytesOf (o : Option ObjectVersionRecord) : UInt64 := sizeOf? (o.bind (·.asObject))

end Rows

/-! ## Helpers -/

section Helpers

/-- The null version of a key, as its index row names it. -/
def NullVersion (s : Catalog) (bucket : BucketId) (key : ObjectKey) (o : Option ObjectVersionRecord) :
    Prop :=
  (s.nullVersions[objectKey bucket key]? = none ∧ o = none) ∨
    ∃ id r, s.nullVersions[objectKey bucket key]? = some id ∧ s.versions[id]? = some r ∧ o = some r

theorem takeNull_returns {bucket : BucketId} {key : ObjectKey} {o : Option ObjectVersionRecord}
    (h : Returns (takeNull bucket key) s o s') :
    NullVersion s bucket key o ∧
      s' = { s with nullVersions := s.nullVersions.erase (objectKey bucket key) } := by
  simp only [takeNull, returns_bind, returns_read, returns_modify, exists_and_left, exists_const,
    exists_eq_left, and_assoc] at h
  cases hn : s.nullVersions[objectKey bucket key]? with
  | none =>
    rw [hn] at h
    simp only [returns_pure] at h
    exact ⟨.inl ⟨hn, h.1⟩, h.2⟩
  | some id =>
    rw [hn] at h
    simp only [returns_bind, returns_read, returns_okOr, returns_pure, exists_and_left, exists_eq_left,
      and_assoc] at h
    obtain ⟨r, hr, ho, hs⟩ := h
    exact ⟨.inr ⟨id, r, hn, hr, ho⟩, hs⟩

theorem removeReplaced_returns {r : ObjectVersionRecord} {now : DateTime} {u : Unit}
    (h : Returns (removeReplaced r now) s u s') :
    (s.readObjectLock r.versionId).deletionBlockAt now = none ∧
      s' = (s.removeObjectLock r.versionId).removeVersion r := by
  simp only [removeReplaced, assertUnlocked, returns_bind, returns_read, returns_modify, exists_and_left,
    exists_const, exists_eq_left, and_assoc] at h
  cases hb : (s.readObjectLock r.versionId).deletionBlockAt now with
  | none =>
    rw [hb] at h
    simp only [returns_pure, exists_const, exists_eq_left, true_and] at h
    exact ⟨rfl, h⟩
  | some block =>
    rw [hb] at h
    simp only [refuse, returns_throw, false_and, exists_false] at h

/-- Removing what a write replaced, when it replaced something. -/
theorem forM_removeReplaced_returns {o : Option ObjectVersionRecord} {now : DateTime} {u : PUnit}
    (h : Returns (o.toList.forM fun r => removeReplaced r now) s u s') :
    (∀ r, o = some r → (s.readObjectLock r.versionId).deletionBlockAt now = none) ∧
      s' = { s with
        objectLocks := dropLock o s.objectLocks
        versions := dropVersion o s.versions
        versionOrder := dropOrder o s.versionOrder } := by
  cases o with
  | none =>
    rw [Option.toList_none, returns_forM_nil] at h
    exact ⟨by simp, h⟩
  | some r =>
    simp only [Option.toList_some, returns_forM_cons, returns_forM_nil] at h
    obtain ⟨s₁, h, rfl⟩ := h
    obtain ⟨hb, rfl⟩ := removeReplaced_returns h
    refine ⟨?_, rfl⟩
    rintro r' ⟨⟩
    exact hb

theorem applyInitialLock_returns {bucket : Bucket} {version : VersionId} {o : Option ObjectLockState}
    {u : Unit} (h : Returns (applyInitialLock bucket version o) s u s') :
    (∀ state, o = some state → state.isUnlocked = false → bucket.objectLock.isSome = true) ∧
      s' = { s with objectLocks := bornLock version o s.objectLocks } := by
  unfold applyInitialLock at h
  unfold bornLock
  cases hf : o.filter fun state => !state.isUnlocked with
  | none =>
    rw [hf] at h
    simp only [returns_pure] at h
    refine ⟨?_, h.2⟩
    rintro state rfl hu
    simp [hu] at hf
  | some state =>
    rw [hf] at h
    simp only [returns_bind, returns_ensure, returns_modify, exists_and_left, exists_const,
      exists_eq_left, and_assoc] at h
    refine ⟨fun _ _ _ => h.1, ?_⟩
    have hu : state.isUnlocked = false := by simpa using (Option.filter_eq_some_iff.mp hf).2
    rw [h.2]
    simp [Catalog.writeObjectLock, hu]

theorem queueCleanups_returns {α : Type} {id : α → ObjectId} {l : List α} {u : PUnit}
    (h : Returns (l.forM fun x => (modify (Catalog.queueCleanup (id x)) : CatalogTx Unit)) s u s') :
    s' = { s with cleanup := l.foldl (fun t x => t.insert (id x).bytes 1) s.cleanup } := by
  rw [returns_forM_modify] at h
  rw [h]
  clear h
  induction l generalizing s with
  | nil => rfl
  | cons x l ih =>
    rw [List.foldl_cons, ih, List.foldl_cons]
    rfl

end Helpers

/-! ## Publishing a version -/

section Put

/-- The totals of a bucket after a version of `size` bytes replaced the null version `replaced` and the
current object `previous`. -/
structure PutUsage (u u' : BucketUsage) (previous : Option ObjectMetadata)
    (replaced : Option ObjectVersionRecord) (size : UInt64) : Prop where
  objects : u'.currentObjects = u.currentObjects + ofBool previous.isNone
  logical : checkedReplace u.logicalBytes (sizeOf? previous) size = some u'.logicalBytes
  versions : u'.versions = u.versions - ofBool replaced.isSome + 1
  versionBytes : checkedReplace u.versionBytes (bytesOf replaced) size = some u'.versionBytes
  multipart : u'.multipartBytes = u.multipartBytes

/-- How a publication moves the counters. -/
def putShift (previous : Option ObjectMetadata) (replaced : Option ObjectVersionRecord) (size : UInt64) :
    Counter → Int :=
  only .objects (ofBool previous.isNone).toNat + only .logical (size.toNat - (sizeOf? previous).toNat) +
    only .versions (1 - (ofBool replaced.isSome).toNat) +
    only .versionBytes (size.toNat - (bytesOf replaced).toNat) +
    only .physical (size.toNat - (bytesOf replaced).toNat)

theorem putObjectTx_returns {m : ObjectMetadata} {lock : Option ObjectLockState} {origin : WriteOrigin}
    {res : ObjectCommitResult} (h : Returns (putObjectTx env m lock origin) s res s') :
    ∃ (bucket : Bucket) (isNull : Bool) (replaced : Option ObjectVersionRecord) (u' : BucketUsage),
      s.readBucket m.bucketId = some bucket ∧
      (isNull = true ↔ bucket.versioning ≠ .enabled) ∧
      (if isNull then NullVersion s m.bucketId m.key replaced else replaced = none) ∧
      PutUsage (s.readBucketUsage m.bucketId) u' s.objects[objectKey m.bucketId m.key]? replaced m.size ∧
      bucket.quota.bytes.allows (saturatingAdd u'.versionBytes u'.multipartBytes) = true ∧
      bucket.quota.objects.allows u'.currentObjects = true ∧
      (∀ r, replaced = some r → (s.readObjectLock r.versionId).deletionBlockAt m.createdAt = none) ∧
      (∀ state, lock = some state → state.isUnlocked = false → bucket.objectLock.isSome = true) ∧
      ∃ t e, Shift s.counters t (putShift s.objects[objectKey m.bucketId m.key]? replaced m.size) ∧
      s' = { s with
        objects := s.objects.insert (objectKey m.bucketId m.key) m
        markers := s.markers.erase (objectKey m.bucketId m.key)
        versions := (dropVersion replaced s.versions).insert m.versionId.bytes (.object m isNull)
        versionOrder := (dropOrder replaced s.versionOrder).insert (versionOrderKey (.object m isNull))
          m.versionId.bytes
        nullVersions := if isNull then (s.nullVersions.erase (objectKey m.bucketId m.key)).insert
          (objectKey m.bucketId m.key) m.versionId.bytes else s.nullVersions
        objectLocks := bornLock m.versionId lock (dropLock replaced s.objectLocks)
        bucketUsage := s.bucketUsage.insert (bucketKey m.bucketId) u'
        cleanup := queuePayload replaced s.cleanup
        counters := t
        mutationEvents := e } := by
  simp only [putObjectTx, returns_bind, returns_read, returns_okOr, returns_modify, returns_ensure,
    returns_pure, returns_ite, returns_when, exists_and_left, exists_const, exists_eq_left, and_assoc] at h
  obtain ⟨bucket, hb, replaced, s₁, h1, po, s₂, h2, pl, hpl, kv, s₃, h3, pv, s₄, h4, pb, hpb, hq1, hq2,
    _, s₅, h5, _, s₆, h6, s₇, h7, _, s₈, h8, _, s₉, h9, _, s₁₀, h10, _, s₁₁, h11, _, s₁₂, h12, _, s₁₃,
    h13, _, s₁₄, h14, -, rfl⟩ := h
  -- the null index row goes first, and only in a bucket that is not version-enabled
  obtain ⟨hnull, hs₁⟩ : (if decide (bucket.versioning ≠ .enabled) = true then
        NullVersion s m.bucketId m.key replaced else replaced = none) ∧
      s₁ = { s with nullVersions := if decide (bucket.versioning ≠ .enabled) = true then
        s.nullVersions.erase (objectKey m.bucketId m.key) else s.nullVersions } := by
    rcases h1 with ⟨hn, h1⟩ | ⟨hn, rfl, rfl⟩
    · rw [if_pos hn, if_pos hn]
      exact takeNull_returns h1
    · rw [if_neg hn, if_neg hn]
      exact ⟨rfl, rfl⟩
  subst hs₁
  obtain ⟨rfl, rfl⟩ := uncheckedAdd_returns h2
  obtain ⟨rfl, rfl⟩ := uncheckedSub_returns h3
  obtain ⟨rfl, rfl⟩ := uncheckedAdd_returns h4
  obtain ⟨hdel, rfl⟩ := forM_removeReplaced_returns h5
  obtain ⟨hlock, rfl⟩ := applyInitialLock_returns h6
  obtain ⟨t₁, rfl, ht₁⟩ := adjustCounter_returns (c := .objects) h8
  obtain ⟨t₂, rfl, ht₂⟩ := adjustCounter_returns (c := .logical) h9
  obtain ⟨t₃, rfl, ht₃⟩ := adjustCounter_returns (c := .versions) h10
  obtain ⟨t₄, rfl, ht₄⟩ := adjustCounter_returns (c := .versionBytes) h11
  obtain ⟨t₅, rfl, ht₅⟩ := adjustCounter_returns (c := .physical) h12
  have hs₁₃ := queueCleanups_returns h13
  subst hs₁₃
  obtain ⟨t, e, rfl, ht⟩ := journalEvents_returns (fun _ _ _ _ => journalEvent_returns) h14
  refine ⟨bucket, decide (bucket.versioning ≠ .enabled), replaced,
    { currentObjects := (s.readBucketUsage m.bucketId).currentObjects +
        ofBool s.objects[objectKey m.bucketId m.key]?.isNone
      logicalBytes := pl
      versions := (s.readBucketUsage m.bucketId).versions - ofBool replaced.isSome + 1
      versionBytes := pb
      multipartBytes := (s.readBucketUsage m.bucketId).multipartBytes },
    hb, by simp, hnull, ⟨rfl, hpl, rfl, hpb, rfl⟩, hq1, hq2, hdel, hlock, t, e, ?_, ?_⟩
  · rcases h7 with ⟨-, rfl⟩ | ⟨-, rfl⟩ <;>
      exact (((((ht₁.trans ht₂).trans ht₃).trans ht₄).trans ht₅).trans ht).congr fun c => by
        simp [putShift, bytesOf]
  · have hq : (replaced.bind fun x => x.asObject).toList.foldl (fun t x => t.insert x.id.bytes 1) s.cleanup =
        queuePayload replaced s.cleanup := by
      unfold queuePayload
      cases replaced.bind fun x => x.asObject <;> rfl
    rcases h7 with ⟨hn, rfl⟩ | ⟨hn, rfl⟩
    · simp only [hn, if_true, ← hq]
      rfl
    · simp only [hn, Bool.false_eq_true, if_false, ← hq]
      rfl

end Put

/-! ## Ordinary deletes -/

section Delete

/-- How the removal of an optional version moves the counters. -/
def dropShift (o : Option ObjectVersionRecord) : Counter → Int :=
  only .versions (-(ofBool o.isSome).toNat) + only .versionBytes (-(bytesOf o).toNat) +
    only .physical (-(bytesOf o).toNat)

/-- The totals of a bucket after an optional version was removed. -/
def dropUsage (o : Option ObjectVersionRecord) (u : BucketUsage) : BucketUsage :=
  { u with
    versions := u.versions - ofBool o.isSome
    versionBytes := u.versionBytes - bytesOf o }

/-- How the hiding of an optional current object moves the counters. -/
def hideShift (o : Option ObjectMetadata) : Counter → Int :=
  only .objects (-(ofBool o.isSome).toNat) + only .logical (-(sizeOf? o).toNat)

/-- The totals of a bucket after an optional current object was hidden. -/
def hideUsage (o : Option ObjectMetadata) (u : BucketUsage) : BucketUsage :=
  { u with
    currentObjects := u.currentObjects - ofBool o.isSome
    logicalBytes := u.logicalBytes - sizeOf? o }

theorem deleteNull_returns {bucket : BucketId} {key : ObjectKey} {now : DateTime} {u : BucketUsage}
    {res : BucketUsage × List ObjectMetadata} (h : Returns (deleteNull env bucket key now u) s res s') :
    ∃ removed, NullVersion s bucket key removed ∧
      (∀ r, removed = some r → (s.readObjectLock r.versionId).deletionBlockAt now = none) ∧
      res = (dropUsage removed u, (removed.bind (·.asObject)).toList) ∧
      ∃ t, Shift s.counters t (dropShift removed) ∧
      s' = { s with
        nullVersions := s.nullVersions.erase (objectKey bucket key)
        objectLocks := dropLock removed s.objectLocks
        versions := dropVersion removed s.versions
        versionOrder := dropOrder removed s.versionOrder
        cleanup := queuePayload removed s.cleanup
        counters := t } := by
  simp only [deleteNull, returns_bind] at h
  obtain ⟨removed, s₁, h1, h⟩ := h
  obtain ⟨hnull, rfl⟩ := takeNull_returns h1
  refine ⟨removed, hnull, ?_⟩
  cases removed with
  | none =>
    simp only [returns_pure] at h
    obtain ⟨rfl, rfl⟩ := h
    refine ⟨by simp, ?_, s.counters, (Shift.refl _).congr ?_, rfl⟩
    · simp [dropUsage, bytesOf, sizeOf?, ofBool]
    · intro c
      simp [dropShift, only, bytesOf, sizeOf?, ofBool]
  | some r =>
    simp only [returns_bind] at h
    obtain ⟨_, s₂, h2, versions, s₃, h3, _, s₄, h4, h⟩ := h
    obtain ⟨hdel, rfl⟩ := removeReplaced_returns h2
    obtain ⟨rfl, rfl⟩ := uncheckedSub_returns h3
    obtain ⟨t, rfl, ht⟩ := adjustCounter_returns (c := .versions) h4
    refine ⟨by rintro _ ⟨⟩; exact hdel, ?_⟩
    cases r with
    | deleteMarker mk n =>
      simp only [ObjectVersionRecord.asObject, returns_pure] at h
      obtain ⟨rfl, rfl⟩ := h
      refine ⟨?_, t, ht.congr ?_, rfl⟩
      · simp [dropUsage, bytesOf, sizeOf?, ofBool, ObjectVersionRecord.asObject]
      · intro c
        simp [dropShift, only, bytesOf, sizeOf?, ofBool, ObjectVersionRecord.asObject]
    | object m n =>
      simp only [ObjectVersionRecord.asObject, returns_bind, returns_modify, returns_pure, exists_and_left,
        exists_const, exists_eq_left] at h
      obtain ⟨vb, s₅, h5, _, s₆, h6, _, s₇, h7, rfl, rfl⟩ := h
      obtain ⟨rfl, rfl⟩ := uncheckedSub_returns h5
      obtain ⟨t₁, rfl, ht₁⟩ := adjustCounter_returns (c := .versionBytes) h6
      obtain ⟨t₂, rfl, ht₂⟩ := adjustCounter_returns (c := .physical) h7
      exact ⟨rfl, t₂, (ht.trans ht₁).trans ht₂, rfl⟩

theorem hideCurrent_returns {current : Option ObjectMetadata} {u u' : BucketUsage}
    (h : Returns (hideCurrent env current u) s u' s') :
    u' = hideUsage current u ∧
      ∃ t, Shift s.counters t (hideShift current) ∧ s' = { s with counters := t } := by
  cases current with
  | none =>
    simp only [hideCurrent, returns_pure] at h
    obtain ⟨rfl, rfl⟩ := h
    refine ⟨?_, s'.counters, (Shift.refl _).congr ?_, rfl⟩
    · simp [hideUsage, sizeOf?, ofBool]
    · intro c
      simp [hideShift, only, sizeOf?, ofBool]
  | some m =>
    simp only [hideCurrent, returns_bind, returns_pure] at h
    obtain ⟨co, s₁, h1, lb, s₂, h2, _, s₃, h3, _, s₄, h4, rfl, rfl⟩ := h
    obtain ⟨rfl, rfl⟩ := uncheckedSub_returns h1
    obtain ⟨rfl, rfl⟩ := uncheckedSub_returns h2
    obtain ⟨t₁, rfl, ht₁⟩ := adjustCounter_returns (c := .objects) h3
    obtain ⟨t₂, rfl, ht₂⟩ := adjustCounter_returns (c := .logical) h4
    exact ⟨rfl, t₂, ht₁.trans ht₂, rfl⟩

/-- The delete marker a delete publishes. -/
def newMarker (bucket : BucketId) (key : ObjectKey) (nm : NewDeleteMarker) : DeleteMarker :=
  { versionId := nm.versionId, bucketId := bucket, key := key, createdAt := nm.createdAt }

/-- The totals of a bucket after one more version that has no bytes. -/
def markUsage (u : BucketUsage) : BucketUsage := { u with versions := u.versions + 1 }

theorem deleteCurrent_disabled {bucket : BucketId} {key : ObjectKey} {nm : NewDeleteMarker} {u : BucketUsage}
    {res : BucketUsage × List ObjectMetadata × Option DeleteMarker}
    (h : Returns (deleteCurrent env .disabled bucket key nm u) s res s') :
    ∃ removed, NullVersion s bucket key removed ∧
      (∀ r, removed = some r → (s.readObjectLock r.versionId).deletionBlockAt nm.createdAt = none) ∧
      res = (dropUsage removed u, (removed.bind (·.asObject)).toList, none) ∧
      ∃ t, Shift s.counters t (dropShift removed) ∧
      s' = { s with
        objects := s.objects.erase (objectKey bucket key)
        markers := s.markers.erase (objectKey bucket key)
        nullVersions := s.nullVersions.erase (objectKey bucket key)
        objectLocks := dropLock removed s.objectLocks
        versions := dropVersion removed s.versions
        versionOrder := dropOrder removed s.versionOrder
        cleanup := queuePayload removed s.cleanup
        counters := t } := by
  simp only [deleteCurrent, if_true, returns_bind, returns_modify, returns_pure, exists_and_left,
    exists_const, exists_eq_left] at h
  obtain ⟨r₁, s₁, h1, hres, rfl⟩ := h
  obtain ⟨removed, hnull, hdel, rfl, t, ht, rfl⟩ := deleteNull_returns h1
  exact ⟨removed, hnull, hdel, hres, t, ht, rfl⟩

theorem deleteCurrent_marker {versioning : VersioningState} (hv : versioning ≠ .disabled)
    {bucket : BucketId} {key : ObjectKey} {nm : NewDeleteMarker} {u : BucketUsage}
    {res : BucketUsage × List ObjectMetadata × Option DeleteMarker}
    (h : Returns (deleteCurrent env versioning bucket key nm u) s res s') :
    ∃ (isNull : Bool) (removed : Option ObjectVersionRecord),
      (isNull = true ↔ versioning = .suspended) ∧
      (if isNull then NullVersion s bucket key removed else removed = none) ∧
      (∀ r, removed = some r → (s.readObjectLock r.versionId).deletionBlockAt nm.createdAt = none) ∧
      res = (markUsage (dropUsage removed u), (removed.bind (·.asObject)).toList,
        some (newMarker bucket key nm)) ∧
      ∃ t, Shift s.counters t (dropShift removed + only .versions 1) ∧
      s' = { s with
        objects := s.objects.erase (objectKey bucket key)
        markers := s.markers.insert (objectKey bucket key) (newMarker bucket key nm)
        nullVersions := if isNull then (s.nullVersions.erase (objectKey bucket key)).insert
          (objectKey bucket key) nm.versionId.bytes else s.nullVersions
        objectLocks := dropLock removed s.objectLocks
        versions := (dropVersion removed s.versions).insert nm.versionId.bytes
          (.deleteMarker (newMarker bucket key nm) isNull)
        versionOrder := (dropOrder removed s.versionOrder).insert
          (versionOrderKey (.deleteMarker (newMarker bucket key nm) isNull)) nm.versionId.bytes
        cleanup := queuePayload removed s.cleanup
        counters := t } := by
  simp only [deleteCurrent, if_neg hv, returns_bind, returns_modify, returns_pure, returns_ite, returns_when,
    exists_const, exists_eq_left] at h
  obtain ⟨r₁, s₁, h1, s₂, h2, versions, s₃, h3, _, s₄, h4, hres, rfl⟩ := h
  -- the null version is replaced in a suspended bucket only
  obtain ⟨removed, hnull, hdel, rfl, t, ht, rfl⟩ : ∃ removed,
      (if decide (versioning = .suspended) = true then NullVersion s bucket key removed else removed = none) ∧
      (∀ r, removed = some r → (s.readObjectLock r.versionId).deletionBlockAt nm.createdAt = none) ∧
      r₁ = (dropUsage removed u, (removed.bind (·.asObject)).toList) ∧
      ∃ t, Shift s.counters t (dropShift removed) ∧
      s₁ = { s with
        nullVersions := if decide (versioning = .suspended) = true then
          s.nullVersions.erase (objectKey bucket key) else s.nullVersions
        objectLocks := dropLock removed s.objectLocks
        versions := dropVersion removed s.versions
        versionOrder := dropOrder removed s.versionOrder
        cleanup := queuePayload removed s.cleanup
        counters := t } := by
    rcases h1 with ⟨hn, h1⟩ | ⟨hn, rfl, rfl⟩
    · simp only [if_pos hn]
      exact deleteNull_returns h1
    · simp only [if_neg hn]
      refine ⟨none, rfl, by simp, ?_, s₁.counters, (Shift.refl _).congr ?_, rfl⟩
      · simp [dropUsage, bytesOf, sizeOf?, ofBool]
      · intro c
        simp [dropShift, only, bytesOf, sizeOf?, ofBool]
  obtain ⟨rfl, rfl⟩ := uncheckedAdd_returns h3
  obtain ⟨t', rfl, ht'⟩ := adjustCounter_returns (c := .versions) h4
  refine ⟨decide (versioning = .suspended), removed, by simp, hnull, hdel, hres, t', ?_, ?_⟩
  · rcases h2 with ⟨-, rfl⟩ | ⟨-, rfl⟩ <;> exact ht.trans ht'
  · rcases h2 with ⟨hn, rfl⟩ | ⟨hn, rfl⟩
    · simp only [hn, if_true]
      rfl
    · simp only [hn, Bool.false_eq_true, if_false]
      rfl

theorem deleteObjectTx_returns {bucket : BucketId} {key : ObjectKey} {nm : NewDeleteMarker}
    {res : DeleteObjectResult} (h : Returns (deleteObjectTx env bucket key nm) s res s') :
    ∃ (record : Bucket) (s₁ : Catalog) (r : BucketUsage × List ObjectMetadata × Option DeleteMarker),
      s.readBucket bucket = some record ∧
      Returns (deleteCurrent env record.versioning bucket key nm (s.readBucketUsage bucket)) s r s₁ ∧
      ∃ t e, Shift s₁.counters t (hideShift s.objects[objectKey bucket key]?) ∧
      s' = { s₁ with
        bucketUsage := s₁.bucketUsage.insert (bucketKey bucket)
          (hideUsage s.objects[objectKey bucket key]? r.1)
        counters := t
        mutationEvents := e } := by
  simp only [deleteObjectTx, returns_bind, returns_read, returns_okOr, returns_modify, returns_pure,
    returns_when, exists_and_left, exists_const, exists_eq_left, and_assoc] at h
  obtain ⟨record, hb, r, s₁, h1, u', s₂, h2, s₃, h3, -, rfl⟩ := h
  obtain ⟨rfl, t, ht, rfl⟩ := hideCurrent_returns h2
  refine ⟨record, s₁, r, hb, h1, ?_⟩
  rcases h3 with ⟨-, h3⟩ | ⟨-, rfl⟩
  · obtain ⟨t', e, rfl, ht'⟩ := journalEvent_returns h3
    exact ⟨t', e, (ht.trans ht').congr fun c => by simp, rfl⟩
  · exact ⟨t, _, ht, rfl⟩

end Delete

/-! ## Deleting one explicit version -/

section DeleteVersion

/-- What the lock state must allow before a version is removed. -/
def Releasable (state : ObjectLockState) (release : LockRelease) : Prop :=
  state.isUnlocked = true ∨ ∀ block, state.deletionBlockAt release.observedAt = some block →
    block.isBypassable = true ∧ release.bypassGovernance = true

theorem observeClock_returns {release : LockRelease} {u : Unit} (h : Returns (observeClock release) s u s') :
    ∃ c, s' = { s with clock := c } := by
  simp only [observeClock, returns_bind, returns_read, returns_ensure, returns_when, returns_modify,
    exists_and_left, exists_const, exists_eq_left, and_assoc] at h
  rcases h with ⟨-, ⟨-, rfl⟩ | ⟨-, rfl⟩⟩ <;> exact ⟨_, rfl⟩

theorem enforceDeletable_returns {version : VersionId} {release : LockRelease} {u : Unit}
    (h : Returns (enforceDeletable version release) s u s') :
    Releasable (s.readObjectLock version) release ∧ ∃ c, s' = { s with clock := c } := by
  simp only [enforceDeletable, returns_bind, returns_read, returns_ite, returns_pure, exists_and_left,
    exists_eq_left, and_assoc] at h
  rcases h with ⟨hu, -, rfl⟩ | ⟨-, _, s₁, h1, h⟩
  · exact ⟨.inl hu, _, rfl⟩
  · obtain ⟨c, rfl⟩ := observeClock_returns h1
    cases hb : (s.readObjectLock version).deletionBlockAt release.observedAt with
    | none =>
      rw [hb] at h
      simp only [returns_pure] at h
      exact ⟨.inr (by simp [hb]), c, h.2⟩
    | some block =>
      rw [hb] at h
      simp only [returns_ite, returns_pure, refuse, returns_throw, and_false, or_false] at h
      refine ⟨.inr ?_, c, h.2.2⟩
      intro block' hb'
      rw [hb, Option.some.injEq] at hb'
      subst hb'
      exact h.1

theorem dropVersionBytes_returns {r : ObjectVersionRecord} {u u' : BucketUsage}
    (h : Returns (dropVersionBytes env r u) s u' s') :
    u' = { u with versionBytes := u.versionBytes - bytesOf (some r) } ∧
      ∃ t, Shift s.counters t
        (only .versionBytes (-(bytesOf (some r)).toNat) + only .physical (-(bytesOf (some r)).toNat)) ∧
      s' = { s with cleanup := queuePayload (some r) s.cleanup, counters := t } := by
  cases r with
  | deleteMarker mk n =>
    simp only [dropVersionBytes, ObjectVersionRecord.asObject, returns_pure] at h
    obtain ⟨rfl, rfl⟩ := h
    refine ⟨?_, s'.counters, (Shift.refl _).congr ?_, rfl⟩
    · simp [bytesOf, sizeOf?, ObjectVersionRecord.asObject]
    · intro c
      simp [only, bytesOf, sizeOf?, ObjectVersionRecord.asObject]
  | object m n =>
    simp only [dropVersionBytes, ObjectVersionRecord.asObject, returns_bind, returns_modify, returns_pure,
      exists_const, exists_eq_left] at h
    obtain ⟨vb, s₁, h1, _, s₂, h2, _, s₃, h3, rfl, rfl⟩ := h
    obtain ⟨rfl, rfl⟩ := uncheckedSub_returns h1
    obtain ⟨t₁, rfl, ht₁⟩ := adjustCounter_returns (c := .versionBytes) h2
    obtain ⟨t₂, rfl, ht₂⟩ := adjustCounter_returns (c := .physical) h3
    exact ⟨rfl, t₂, ht₁.trans ht₂, rfl⟩

/-- The marker of a delete-marker record. -/
def asMarker : ObjectVersionRecord → Option DeleteMarker
  | .object _ _ => none
  | .deleteMarker m _ => some m

/-- `OBJECTS` after an optional version was made current under a key without a pointer. -/
def publishObject (key : Bytes) (o : Option ObjectVersionRecord) (t : Table Bytes ObjectMetadata) :
    Table Bytes ObjectMetadata := (o.bind (·.asObject)).elim t fun m => t.insert key m

/-- `MARKERS` likewise. -/
def publishMarker (key : Bytes) (o : Option ObjectVersionRecord) (t : Table Bytes DeleteMarker) :
    Table Bytes DeleteMarker := (o.bind asMarker).elim t fun m => t.insert key m

/-- The totals of a bucket after an optional object became current. -/
def showUsage (o : Option ObjectMetadata) (u : BucketUsage) : BucketUsage :=
  { u with
    currentObjects := u.currentObjects + ofBool o.isSome
    logicalBytes := u.logicalBytes + sizeOf? o }

/-- How the showing of an optional object moves the counters. -/
def showShift (o : Option ObjectMetadata) : Counter → Int :=
  only .objects (ofBool o.isSome).toNat + only .logical (sizeOf? o).toNat

theorem promote_returns {bucket : BucketId} {key : ObjectKey} {u u' : BucketUsage}
    (h : Returns (promote env bucket key u) s u' s') :
    u' = showUsage ((s.latestVersion bucket key).bind (·.asObject)) u ∧
      ∃ t, Shift s.counters t (showShift ((s.latestVersion bucket key).bind (·.asObject))) ∧
      s' = { s with
        objects := publishObject (objectKey bucket key) (s.latestVersion bucket key) s.objects
        markers := publishMarker (objectKey bucket key) (s.latestVersion bucket key) s.markers
        counters := t } := by
  simp only [promote, returns_bind, returns_read, exists_and_left, exists_eq_left, and_assoc] at h
  cases hl : s.latestVersion bucket key with
  | none =>
    rw [hl] at h
    simp only [returns_pure] at h
    obtain ⟨rfl, rfl⟩ := h
    refine ⟨?_, s'.counters, (Shift.refl _).congr ?_, rfl⟩
    · simp [showUsage, sizeOf?, ofBool]
    · intro c
      simp [showShift, only, sizeOf?, ofBool]
  | some next =>
    rw [hl] at h
    simp only [returns_bind, returns_modify, exists_const, exists_eq_left] at h
    cases next with
    | deleteMarker mk n =>
      simp only [ObjectVersionRecord.asObject, returns_pure] at h
      obtain ⟨rfl, rfl⟩ := h
      refine ⟨?_, s.counters, (Shift.refl _).congr ?_, rfl⟩
      · simp [showUsage, sizeOf?, ofBool, ObjectVersionRecord.asObject]
      · intro c
        simp [showShift, only, sizeOf?, ofBool, ObjectVersionRecord.asObject]
    | object m n =>
      simp only [ObjectVersionRecord.asObject, returns_bind, returns_pure] at h
      obtain ⟨co, s₁, h1, lb, s₂, h2, _, s₃, h3, _, s₄, h4, rfl, rfl⟩ := h
      obtain ⟨rfl, rfl⟩ := uncheckedAdd_returns h1
      obtain ⟨rfl, rfl⟩ := uncheckedAdd_returns h2
      obtain ⟨t₁, rfl, ht₁⟩ := adjustCounter_returns (c := .objects) h3
      obtain ⟨t₂, rfl, ht₂⟩ := adjustCounter_returns (c := .logical) h4
      exact ⟨rfl, t₂, ht₁.trans ht₂, rfl⟩

theorem replaceCurrent_returns {bucket : BucketId} {key : ObjectKey} {u u' : BucketUsage}
    (h : Returns (replaceCurrent env bucket key u) s u' s') :
    u' = showUsage ((s.latestVersion bucket key).bind (·.asObject))
        (hideUsage s.objects[objectKey bucket key]? u) ∧
      ∃ t, Shift s.counters t (hideShift s.objects[objectKey bucket key]? +
          showShift ((s.latestVersion bucket key).bind (·.asObject))) ∧
      s' = { s with
        objects := publishObject (objectKey bucket key) (s.latestVersion bucket key)
          (s.objects.erase (objectKey bucket key))
        markers := publishMarker (objectKey bucket key) (s.latestVersion bucket key)
          (s.markers.erase (objectKey bucket key))
        counters := t } := by
  simp only [replaceCurrent, returns_bind, returns_read, returns_modify, exists_and_left, exists_const,
    exists_eq_left, and_assoc] at h
  obtain ⟨u₁, s₁, h1, h⟩ := h
  obtain ⟨rfl, t₁, ht₁, rfl⟩ := hideCurrent_returns h1
  obtain ⟨rfl, t₂, ht₂, rfl⟩ := promote_returns h
  exact ⟨rfl, t₂, ht₁.trans ht₂, rfl⟩

/-- `NULL_VERSIONS` after the removal of the version `r`. -/
def clearNullRow (key : Bytes) (version : VersionId) (r : ObjectVersionRecord) (t : Table Bytes Bytes) :
    Table Bytes Bytes := if r.isNull = true ∧ t[key]? = some version.bytes then t.erase key else t

theorem Catalog.clearNull_eq (key : Bytes) (id : VersionId) (s : Catalog) :
    s.clearNull key id = { s with
      nullVersions := if s.nullVersions[key]? = some id.bytes then s.nullVersions.erase key
        else s.nullVersions } := by
  unfold Catalog.clearNull
  split <;> rfl

theorem removeExactVersion_returns {bucket : BucketId} {key : ObjectKey} {version : VersionId}
    {release : LockRelease} {r : ObjectVersionRecord} {res : DeleteVersionResult}
    (h : Returns (removeExactVersion env bucket key version release r) s res s') :
    Releasable (s.readObjectLock version) release ∧
    ∃ ob mk u' c t e,
      ((s.currentVersion (objectKey bucket key) = some version ∧
          ob = publishObject (objectKey bucket key) ((s.removeVersion r).latestVersion bucket key)
            (s.objects.erase (objectKey bucket key)) ∧
          mk = publishMarker (objectKey bucket key) ((s.removeVersion r).latestVersion bucket key)
            (s.markers.erase (objectKey bucket key)) ∧
          u' = showUsage (((s.removeVersion r).latestVersion bucket key).bind (·.asObject))
            (hideUsage s.objects[objectKey bucket key]? (dropUsage (some r) (s.readBucketUsage bucket))) ∧
          Shift s.counters t (dropShift (some r) + (hideShift s.objects[objectKey bucket key]? +
            showShift (((s.removeVersion r).latestVersion bucket key).bind (·.asObject))))) ∨
        (s.currentVersion (objectKey bucket key) ≠ some version ∧ ob = s.objects ∧ mk = s.markers ∧
          u' = dropUsage (some r) (s.readBucketUsage bucket) ∧
          Shift s.counters t (dropShift (some r)))) ∧
      s' = { s with
        objects := ob
        markers := mk
        versions := s.versions.erase r.versionId.bytes
        versionOrder := s.versionOrder.erase (versionOrderKey r)
        nullVersions := clearNullRow (objectKey bucket key) version r s.nullVersions
        objectLocks := s.objectLocks.erase (lockKey version)
        bucketUsage := s.bucketUsage.insert (bucketKey bucket) u'
        cleanup := queuePayload (some r) s.cleanup
        clock := c
        counters := t
        mutationEvents := e } := by
  simp only [removeExactVersion, returns_bind, returns_read, returns_modify, returns_pure, returns_ite,
    returns_when, exists_and_left, exists_const, exists_eq_left, and_assoc] at h
  obtain ⟨_, s₁, h1, s₂, h2, versions, s₃, h3, _, s₄, h4, u₁, s₅, h5, u₂, s₆, h6, _, s₇, h7, -, rfl⟩ := h
  obtain ⟨hrel, c, rfl⟩ := enforceDeletable_returns h1
  refine ⟨hrel, ?_⟩
  -- the null index row of the version goes with it
  have hs₂ : s₂ = { s with
      versions := s.versions.erase r.versionId.bytes
      versionOrder := s.versionOrder.erase (versionOrderKey r)
      nullVersions := clearNullRow (objectKey bucket key) version r s.nullVersions
      objectLocks := s.objectLocks.erase (lockKey version)
      clock := c } := by
    unfold clearNullRow
    rcases h2 with ⟨hn, rfl⟩ | ⟨hn, rfl⟩
    · simp only [Catalog.clearNull_eq, hn, true_and]
      rfl
    · rw [if_neg fun e => hn e.1]
      rfl
  subst hs₂
  obtain ⟨rfl, rfl⟩ := uncheckedSub_returns h3
  obtain ⟨t₁, rfl, ht₁⟩ := adjustCounter_returns (c := .versions) h4
  obtain ⟨rfl, t₂, ht₂, rfl⟩ := dropVersionBytes_returns h5
  have hdrop : Shift s.counters t₂ (dropShift (some r)) :=
    (ht₁.trans ht₂).congr fun c => by simp [dropShift, ofBool]; ring
  obtain ⟨t, e, rfl, ht⟩ := journalEvents_returns (fun _ _ _ _ => journalEvent_returns) h7
  rcases h6 with ⟨hcur, h6⟩ | ⟨hcur, rfl, rfl⟩
  · obtain ⟨rfl, t₃, ht₃, rfl⟩ := replaceCurrent_returns h6
    refine ⟨_, _, _, c, t, e, .inl ⟨beq_iff_eq.mp hcur, rfl, rfl, rfl, ?_⟩, rfl⟩
    exact ((hdrop.trans ht₃).trans ht).congr fun _ => add_zero _
  · refine ⟨_, _, _, c, t, e, .inr ⟨fun h => hcur (beq_iff_eq.mpr h), rfl, rfl, rfl, ?_⟩, rfl⟩
    exact (hdrop.trans ht).congr fun _ => add_zero _

theorem deleteObjectVersionTx_returns {bucket : BucketId} {key : ObjectKey} {version : VersionId}
    {release : LockRelease} {res : Option DeleteVersionResult}
    (h : Returns (deleteObjectVersionTx env bucket key version release) s res s') :
    s' = s ∨ ∃ r res', s.versions[version.bytes]? = some r ∧ r.matchesKey bucket key ∧
      Returns (removeExactVersion env bucket key version release r) s res' s' := by
  simp only [deleteObjectVersionTx, returns_bind, returns_read, exists_and_left, exists_eq_left,
    and_assoc] at h
  cases hv : s.versions[version.bytes]? with
  | none =>
    rw [hv] at h
    simp only [returns_pure] at h
    exact .inl h.2
  | some r =>
    rw [hv] at h
    simp only [returns_ite, returns_pure, returns_map] at h
    rcases h with ⟨hm, res', -, h⟩ | ⟨-, -, rfl⟩
    · exact .inr ⟨r, res', rfl, hm, h⟩
    · exact .inl rfl

end DeleteVersion

end RecordStore.Metadata

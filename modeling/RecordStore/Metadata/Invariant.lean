import RecordStore.Metadata.UploadEffects
import RecordStore.Metadata.VersionIndex
import RecordStore.Metadata.UploadIndex

/-!
# Metadata.Invariant — the well-formed catalog

`WF` collects what the tables of a catalog owe each other: bucket records agree with their name index,
versions, uploads and lock records belong to buckets that exist, the indexes are exact.  Each command
is shown to keep it, given that the version identifiers it brings are new.
-/

namespace RecordStore.Metadata

open RecordStore.Lib RecordStore.Core Tx

/-! ## The invariant -/

/-- `BUCKETS` and `BUCKET_NAMES` hold the same records, one per name. -/
structure BucketIndex (buckets : Table Bytes Bucket) (names : Table String Bucket) : Prop where
  bucket : ∀ (k : Bytes) (b : Bucket), buckets[k]? = some b →
    k = bucketKey b.id ∧ names[b.name.value]? = some b
  name : ∀ (n : String) (b : Bucket), names[n]? = some b →
    n = b.name.value ∧ buckets[bucketKey b.id]? = some b

/-- Every version belongs to a bucket, and to a bucket under Object Lock only as a non-null version. -/
def Owned (buckets : Table Bytes Bucket) (versions : Table Bytes ObjectVersionRecord) : Prop :=
  ∀ (k : Bytes) (r : ObjectVersionRecord), versions[k]? = some r →
    ∃ b, buckets[bucketKey r.bucketId]? = some b ∧ (b.objectLock.isSome = true → r.isNull = false)

/-- Every lock record holds something, on an object version of a bucket under Object Lock. -/
def LockRecords (buckets : Table Bytes Bucket) (versions : Table Bytes ObjectVersionRecord)
    (locks : Table Bytes ObjectLockState) : Prop :=
  ∀ (k : Bytes) (state : ObjectLockState), locks[k]? = some state → state.isUnlocked = false ∧
    ∃ m n b, versions[k]? = some (.object m n) ∧ buckets[bucketKey m.bucketId]? = some b ∧
      b.objectLock.isSome = true

/-- What the tables of a catalog owe each other. -/
structure WF (s : Catalog) : Prop where
  buckets : BucketIndex s.buckets s.bucketNames
  usage : ∀ k : Bytes, (s.bucketUsage[k]?).isSome = (s.buckets[k]?).isSome
  enabled : ∀ (k : Bytes) (b : Bucket), s.buckets[k]? = some b → b.objectLock.isSome = true →
    b.versioning = .enabled
  index : VersionIndex s.versions s.versionOrder s.nullVersions
  pointers : Pointers s.versions s.objects s.markers
  owned : Owned s.buckets s.versions
  locks : LockRecords s.buckets s.versions s.objectLocks
  uploads : UploadIndex s.multipart s.multipartOrder s.parts
  uploadOwned : ∀ (k : Bytes) (u : MultipartUpload), s.multipart[k]? = some u →
    ∃ b, s.buckets[bucketKey u.bucketId]? = some b

variable {s s' : Catalog} {env : Env} {bucket : BucketId} {key : ObjectKey}

/-! ## Replaced null versions -/

section NullVersion

variable {removed : Option ObjectVersionRecord}

/-- The version behind a null index row is a null version of the row's key. -/
theorem NullVersion.row (h : VersionIndex s.versions s.versionOrder s.nullVersions)
    (hn : NullVersion s bucket key removed) {r : ObjectVersionRecord} (hr : removed = some r) :
    s.versions[r.versionId.bytes]? = some r ∧ r.isNull = true ∧ r.matchesKey bucket key := by
  rcases hn with ⟨-, rfl⟩ | ⟨id, r', hid, hr', rfl⟩
  · cases hr
  · obtain rfl := Option.some.inj hr
    obtain ⟨r'', hr'', hnull, hk⟩ := (h.null_iff _ _).mp hid
    rw [hr', Option.some.injEq] at hr''
    subst hr''
    obtain ⟨hb, hkey⟩ := objectKey_inj hk
    have hrow := h.key _ _ hr'
    exact ⟨hrow ▸ hr', hnull, hb.symm, hkey.symm⟩

/-- Dropping the null version of a key leaves its null row free. -/
theorem VersionIndex.dropNull (h : VersionIndex s.versions s.versionOrder s.nullVersions)
    (hn : NullVersion s bucket key removed) :
    VersionIndex (dropVersion removed s.versions) (dropOrder removed s.versionOrder)
      (s.nullVersions.erase (objectKey bucket key)) := by
  cases removed with
  | none =>
    rcases hn with ⟨hnone, -⟩ | ⟨_, _, _, _, hr⟩
    · rw [Table.erase_of_none hnone]
      exact h
    · cases hr
  | some r =>
    obtain ⟨hrow, hnull, hb, hk⟩ := hn.row h rfl
    have hrem := h.remove hrow
    rw [if_pos hnull, hb, hk] at hrem
    exact hrem

theorem lookup_dropVersion {t : Table Bytes ObjectVersionRecord} {k : Bytes} {r : ObjectVersionRecord}
    (h : (dropVersion removed t)[k]? = some r) : t[k]? = some r := by
  cases removed with
  | none => exact h
  | some r' =>
    simp only [dropVersion, Option.elim_some, Table.lookup_erase] at h
    split_ifs at h
    exact h

theorem lookup_dropVersion_none {t : Table Bytes ObjectVersionRecord} {k : Bytes} (h : t[k]? = none) :
    (dropVersion removed t)[k]? = none := by
  by_contra hne
  obtain ⟨r, hr⟩ := Option.ne_none_iff_exists'.mp hne
  rw [lookup_dropVersion hr] at h
  cases h

theorem lookup_dropVersion_of_ne {t : Table Bytes ObjectVersionRecord} {k : Bytes} {r : ObjectVersionRecord}
    (h : t[k]? = some r) (hne : ∀ r', removed = some r' → k ≠ r'.versionId.bytes) :
    (dropVersion removed t)[k]? = some r := by
  cases removed with
  | none => exact h
  | some r' =>
    simp only [dropVersion, Option.elim_some, Table.lookup_erase]
    rw [if_neg (hne r' rfl), h]

theorem lookup_dropLock {t : Table Bytes ObjectLockState} {k : Bytes} {state : ObjectLockState}
    (h : (dropLock removed t)[k]? = some state) :
    t[k]? = some state ∧ ∀ r', removed = some r' → k ≠ r'.versionId.bytes := by
  cases removed with
  | none => exact ⟨h, by simp⟩
  | some r' =>
    simp only [dropLock, Option.elim_some, Table.lookup_erase] at h
    split_ifs at h with hk
    refine ⟨h, ?_⟩
    rintro _ ⟨⟩
    exact hk

end NullVersion

/-! ## Publishing -/

section Publish

variable {removed : Option ObjectVersionRecord} {isNull : Bool} {r : ObjectVersionRecord}

theorem VersionIndex.publish (h : VersionIndex s.versions s.versionOrder s.nullVersions)
    (hnull : if isNull then NullVersion s bucket key removed else removed = none)
    (hr : r.matchesKey bucket key) (hrn : r.isNull = isNull)
    (hfresh : s.versions[r.versionId.bytes]? = none) :
    VersionIndex ((dropVersion removed s.versions).insert r.versionId.bytes r)
      ((dropOrder removed s.versionOrder).insert (versionOrderKey r) r.versionId.bytes)
      (if isNull then (s.nullVersions.erase (objectKey bucket key)).insert (objectKey bucket key)
        r.versionId.bytes else s.nullVersions) := by
  have hkey : objectKey r.bucketId r.key = objectKey bucket key := by rw [hr.1, hr.2]
  have hgone : (dropVersion removed s.versions)[r.versionId.bytes]? = none := lookup_dropVersion_none hfresh
  by_cases hn : isNull = true
  · rw [if_pos hn] at hnull ⊢
    have hins := (h.dropNull hnull).insert hgone fun _ => by rw [hkey, Table.lookup_erase_self]
    rw [if_pos (hrn.trans hn), hkey] at hins
    exact hins
  · rw [if_neg hn] at hnull ⊢
    subst hnull
    have hins := h.insert hgone fun e => absurd (hrn.symm.trans e) hn
    rw [if_neg fun e => hn (hrn.symm.trans e)] at hins
    exact hins

/-- What a publication drops is a version of the key it publishes under. -/
theorem removed_row (h : VersionIndex s.versions s.versionOrder s.nullVersions)
    (hnull : if isNull then NullVersion s bucket key removed else removed = none) :
    ∀ r, removed = some r → s.versions[r.versionId.bytes]? = some r ∧ r.matchesKey bucket key := by
  intro r hr
  by_cases hn : isNull = true
  · rw [if_pos hn] at hnull
    obtain ⟨h1, -, h2⟩ := hnull.row h hr
    exact ⟨h1, h2⟩
  · rw [if_neg hn, hr] at hnull
    cases hnull

theorem lookup_publishObject {t : Table Bytes ObjectMetadata} {k : Bytes} {m : ObjectMetadata}
    (h : (publishObject k (some r) (t.erase k))[k]? = some m) : ∃ n, r = .object m n := by
  cases r with
  | object m' n =>
    simp only [publishObject, ObjectVersionRecord.asObject, Option.bind_some, Option.elim_some,
      Table.lookup_insert_self, Option.some.injEq] at h
    exact ⟨n, by rw [h]⟩
  | deleteMarker m' n =>
    simp [publishObject, ObjectVersionRecord.asObject] at h

theorem lookup_publishMarker {t : Table Bytes DeleteMarker} {k : Bytes} {m : DeleteMarker}
    (h : (publishMarker k (some r) (t.erase k))[k]? = some m) : ∃ n, r = .deleteMarker m n := by
  cases r with
  | object m' n =>
    simp [publishMarker, asMarker] at h
  | deleteMarker m' n =>
    simp only [publishMarker, asMarker, Option.bind_some, Option.elim_some, Table.lookup_insert_self,
      Option.some.injEq] at h
    exact ⟨n, by rw [h]⟩

theorem lookup_publishObject_of_ne {t : Table Bytes ObjectMetadata} {k k' : Bytes}
    {o : Option ObjectVersionRecord} (h : k' ≠ k) : (publishObject k o (t.erase k))[k']? = t[k']? := by
  unfold publishObject
  cases o.bind fun x => x.asObject with
  | none => rw [Option.elim_none, Table.lookup_erase, if_neg h]
  | some m => rw [Option.elim_some, Table.lookup_insert, if_neg h, Table.lookup_erase, if_neg h]

theorem lookup_publishMarker_of_ne {t : Table Bytes DeleteMarker} {k k' : Bytes}
    {o : Option ObjectVersionRecord} (h : k' ≠ k) : (publishMarker k o (t.erase k))[k']? = t[k']? := by
  unfold publishMarker
  cases o.bind asMarker with
  | none => rw [Option.elim_none, Table.lookup_erase, if_neg h]
  | some m => rw [Option.elim_some, Table.lookup_insert, if_neg h, Table.lookup_erase, if_neg h]

/-- A pointer row is one or the other. -/
theorem publish_exclusive {tob : Table Bytes ObjectMetadata} {tm : Table Bytes DeleteMarker} {k : Bytes}
    (o : Option ObjectVersionRecord) :
    (publishObject k o (tob.erase k))[k]? = none ∨ (publishMarker k o (tm.erase k))[k]? = none := by
  rcases o with _ | (m | m) <;> simp [publishObject, publishMarker, ObjectVersionRecord.asObject, asMarker]

/-- The pointer of a key moved to the version `o` of that key, or taken away. -/
theorem Pointers.repoint {versions' : Table Bytes ObjectVersionRecord} {o : Option ObjectVersionRecord}
    (h : Pointers s.versions s.objects s.markers)
    (hkeep : ∀ r : ObjectVersionRecord, s.versions[r.versionId.bytes]? = some r →
      ¬ r.matchesKey bucket key → versions'[r.versionId.bytes]? = some r)
    (ho : ∀ r, o = some r → r.matchesKey bucket key ∧ versions'[r.versionId.bytes]? = some r) :
    Pointers versions' (publishObject (objectKey bucket key) o (s.objects.erase (objectKey bucket key)))
      (publishMarker (objectKey bucket key) o (s.markers.erase (objectKey bucket key))) := by
  refine h.change hkeep (fun k hk => lookup_publishObject_of_ne hk)
    (fun k hk => lookup_publishMarker_of_ne hk) ?_ ?_ (publish_exclusive o)
  · intro m hm
    cases o with
    | none => simp [publishObject] at hm
    | some r =>
      obtain ⟨n, rfl⟩ := lookup_publishObject hm
      obtain ⟨⟨hb, hk⟩, hrow⟩ := ho _ rfl
      exact ⟨hb, hk, n, hrow⟩
  · intro m hm
    cases o with
    | none => simp [publishMarker] at hm
    | some r =>
      obtain ⟨n, rfl⟩ := lookup_publishMarker hm
      obtain ⟨⟨hb, hk⟩, hrow⟩ := ho _ rfl
      exact ⟨hb, hk, n, hrow⟩

/-- Dropping versions of one key keeps the versions of the others. -/
theorem keep_other {v : Table Bytes ObjectVersionRecord}
    (hrem : ∀ r, removed = some r → v[r.versionId.bytes]? = some r ∧ r.matchesKey bucket key) :
    ∀ r : ObjectVersionRecord, v[r.versionId.bytes]? = some r → ¬ r.matchesKey bucket key →
      (dropVersion removed v)[r.versionId.bytes]? = some r := by
  intro r hr hne
  refine lookup_dropVersion_of_ne hr ?_
  intro r' hr' e
  obtain ⟨hrow, hm⟩ := hrem r' hr'
  rw [← e, hr, Option.some.injEq] at hrow
  exact hne (hrow ▸ hm)

theorem usage_insert {t : Table Bytes BucketUsage} {b : Bucket} {u : BucketUsage}
    (h : ∀ k : Bytes, (t[k]?).isSome = (s.buckets[k]?).isSome) (hb : s.readBucket bucket = some b) (k : Bytes) :
    ((t.insert (bucketKey bucket) u)[k]?).isSome = (s.buckets[k]?).isSome := by
  rw [Table.lookup_insert]
  by_cases hk : k = bucketKey bucket
  · rw [if_pos hk, hk]
    unfold Catalog.readBucket at hb
    rw [hb]
    rfl
  · rw [if_neg hk, h]

/-- Publishing a fresh version over a null version keeps the catalog well formed. -/
theorem WF.publish (h : WF s) {b : Bucket} {lock : Option ObjectLockState} {u : BucketUsage}
    {cl : Table Bytes UInt8} {t : Table String UInt64} {e : Table UInt64 MutationEvent}
    (hb : s.readBucket bucket = some b) (hver : isNull = true ↔ b.versioning ≠ .enabled)
    (hnull : if isNull then NullVersion s bucket key removed else removed = none)
    (hr : r.matchesKey bucket key) (hrn : r.isNull = isNull)
    (hfresh : s.versions[r.versionId.bytes]? = none)
    (hlock : ∀ state, lock = some state → state.isUnlocked = false →
      b.objectLock.isSome = true ∧ r.isDeleteMarker = false) :
    WF { s with
      objects := publishObject (objectKey bucket key) (some r) (s.objects.erase (objectKey bucket key))
      markers := publishMarker (objectKey bucket key) (some r) (s.markers.erase (objectKey bucket key))
      versions := (dropVersion removed s.versions).insert r.versionId.bytes r
      versionOrder := (dropOrder removed s.versionOrder).insert (versionOrderKey r) r.versionId.bytes
      nullVersions := if isNull then (s.nullVersions.erase (objectKey bucket key)).insert
        (objectKey bucket key) r.versionId.bytes else s.nullVersions
      objectLocks := bornLock r.versionId lock (dropLock removed s.objectLocks)
      bucketUsage := s.bucketUsage.insert (bucketKey bucket) u
      cleanup := cl
      counters := t
      mutationEvents := e } := by
  have hrem := removed_row h.index hnull
  have hbucket : s.buckets[bucketKey r.bucketId]? = some b := by rw [hr.1]; exact hb
  have hold : ∀ {k : Bytes} {r' : ObjectVersionRecord}, s.versions[k]? = some r' → k ≠ r.versionId.bytes := by
    rintro k r' hk rfl
    rw [hfresh] at hk
    cases hk
  refine ⟨h.buckets, usage_insert h.usage hb, h.enabled, h.index.publish hnull hr hrn hfresh, ?_, ?_, ?_,
    h.uploads, h.uploadOwned⟩
  · refine h.pointers.repoint ?_ ?_
    · intro r' hr' hne
      rw [Table.lookup_insert, if_neg (hold hr')]
      exact keep_other hrem r' hr' hne
    · rintro r' ⟨⟩
      exact ⟨hr, by rw [Table.lookup_insert_self]⟩
  · intro k r' hr'
    rcases Table.of_lookup_insert hr' with ⟨-, rfl⟩ | ⟨-, hr'⟩
    · refine ⟨b, hbucket, fun hl => ?_⟩
      rw [hrn, ← Bool.not_eq_true, hver]
      exact not_not.mpr (h.enabled _ _ hb hl)
    · exact h.owned k r' (lookup_dropVersion hr')
  · intro k state hk
    have hborn : (∃ st, lock = some st ∧ st.isUnlocked = false ∧ k = r.versionId.bytes ∧ st = state) ∨
        (dropLock removed s.objectLocks)[k]? = some state := by
      unfold bornLock at hk
      cases hf : lock.filter fun st => !st.isUnlocked with
      | none =>
        rw [hf] at hk
        exact .inr hk
      | some st =>
        rw [hf, Option.elim_some, Table.lookup_insert] at hk
        split_ifs at hk with hkey
        · obtain ⟨h1, h2⟩ := Option.filter_eq_some_iff.mp hf
          exact .inl ⟨st, h1, by simpa using h2, hkey, Option.some.inj hk⟩
        · exact .inr hk
    rcases hborn with ⟨st, hst, hun, rfl, rfl⟩ | hk
    · obtain ⟨hl, hd⟩ := hlock st hst hun
      cases r with
      | object m n => exact ⟨hun, m, n, b, Table.lookup_insert_self _ _ _, hbucket, hl⟩
      | deleteMarker m n => exact absurd hd (by simp [ObjectVersionRecord.isDeleteMarker])
    · obtain ⟨hlk, hne⟩ := lookup_dropLock hk
      obtain ⟨hun, m, n, b', hrow, hb', hl⟩ := h.locks k state hlk
      refine ⟨hun, m, n, b', ?_, hb', hl⟩
      rw [Table.lookup_insert, if_neg (hold hrow)]
      exact lookup_dropVersion_of_ne hrow hne

end Publish

/-! ## Removing versions -/

section Remove

variable {removed : Option ObjectVersionRecord} {r : ObjectVersionRecord}

theorem Owned.drop {buckets : Table Bytes Bucket} {versions : Table Bytes ObjectVersionRecord}
    (h : Owned buckets versions) : Owned buckets (dropVersion removed versions) :=
  fun k r hr => h k r (lookup_dropVersion hr)

theorem LockRecords.drop {buckets : Table Bytes Bucket} {versions : Table Bytes ObjectVersionRecord}
    {locks : Table Bytes ObjectLockState} (h : LockRecords buckets versions locks) :
    LockRecords buckets (dropVersion removed versions) (dropLock removed locks) := by
  intro k state hk
  obtain ⟨hlk, hne⟩ := lookup_dropLock hk
  obtain ⟨hun, m, n, b, hrow, hb, hl⟩ := h k state hlk
  exact ⟨hun, m, n, b, lookup_dropVersion_of_ne hrow hne, hb, hl⟩

/-- The null version of a key dropped together with the key's pointer. -/
theorem WF.unpublish (h : WF s) {b : Bucket} {u : BucketUsage} {cl : Table Bytes UInt8}
    {t : Table String UInt64} {e : Table UInt64 MutationEvent} (hb : s.readBucket bucket = some b)
    (hnull : NullVersion s bucket key removed) :
    WF { s with
      objects := s.objects.erase (objectKey bucket key)
      markers := s.markers.erase (objectKey bucket key)
      nullVersions := s.nullVersions.erase (objectKey bucket key)
      objectLocks := dropLock removed s.objectLocks
      versions := dropVersion removed s.versions
      versionOrder := dropOrder removed s.versionOrder
      bucketUsage := s.bucketUsage.insert (bucketKey bucket) u
      cleanup := cl
      counters := t
      mutationEvents := e } := by
  refine ⟨h.buckets, usage_insert h.usage hb, h.enabled, h.index.dropNull hnull, ?_, h.owned.drop,
    h.locks.drop, h.uploads, h.uploadOwned⟩
  refine h.pointers.repoint (o := none) (keep_other fun r' hr' => ?_) (fun _ hr => absurd hr (by simp))
  obtain ⟨h1, -, h2⟩ := hnull.row h.index hr'
  exact ⟨h1, h2⟩

/-- What `latest_version` finds is a version of the key. -/
theorem latestVersion_some (h : VersionIndex s.versions s.versionOrder s.nullVersions)
    (hl : s.latestVersion bucket key = some r) :
    s.versions[r.versionId.bytes]? = some r ∧ r.matchesKey bucket key := by
  unfold Catalog.latestVersion at hl
  simp only at hl
  split at hl
  · cases hl
  · next k id rest hrows =>
    have hmem : (k, id) ∈ s.versionOrder.rowsIn (exactVersionPrefix bucket key)
        (prefixSuccessor (exactVersionPrefix bucket key)) := by rw [hrows]; exact List.mem_cons_self
    obtain ⟨hord, hin⟩ := Table.mem_rowsIn.mp hmem
    obtain ⟨r', hr', rfl⟩ := (h.order_iff k id).mp hord
    rw [hl, Option.some.injEq] at hr'
    subst hr'
    have hid := h.key _ _ hl
    exact ⟨hid ▸ hl, inRange_versionOrderKey.mp hin⟩

/-- `latest_version` finds nothing only when the key has no version. -/
theorem latestVersion_none (h : VersionIndex s.versions s.versionOrder s.nullVersions)
    (hl : s.latestVersion bucket key = none) {k : Bytes} (hr : s.versions[k]? = some r) :
    ¬ r.matchesKey bucket key := by
  intro hm
  have hord := (h.order_iff (versionOrderKey r) k).mpr ⟨r, hr, rfl⟩
  have hmem := Table.mem_rowsIn.mpr ⟨hord, inRange_versionOrderKey.mpr hm⟩
  unfold Catalog.latestVersion at hl
  simp only at hl
  split at hl
  · next hrows =>
    rw [hrows] at hmem
    cases hmem
  · next k' id rest hrows =>
    have hmem' : (k', id) ∈ s.versionOrder.rowsIn (exactVersionPrefix bucket key)
        (prefixSuccessor (exactVersionPrefix bucket key)) := by rw [hrows]; exact List.mem_cons_self
    obtain ⟨r', hr', -⟩ := (h.order_iff k' id).mp (Table.mem_rowsIn.mp hmem').1
    rw [hr'] at hl
    cases hl

/-- The index after the removal of one explicit version. -/
theorem VersionIndex.removeExact (h : VersionIndex s.versions s.versionOrder s.nullVersions)
    (hr : s.versions[r.versionId.bytes]? = some r) (hm : r.matchesKey bucket key) :
    VersionIndex (s.versions.erase r.versionId.bytes) (s.versionOrder.erase (versionOrderKey r))
      (clearNullRow (objectKey bucket key) r.versionId r s.nullVersions) := by
  have hrem := h.remove hr
  rw [hm.1, hm.2] at hrem
  unfold clearNullRow
  by_cases hn : r.isNull = true
  · have hrow := (h.null_iff (objectKey bucket key) _).mpr ⟨r, hr, hn, by rw [hm.1, hm.2]⟩
    rw [if_pos ⟨hn, hrow⟩]
    rwa [if_pos hn] at hrem
  · rw [if_neg fun e => hn e.1]
    rwa [if_neg hn] at hrem

theorem WF.removeExact (h : WF s) {version : VersionId} {release : LockRelease} {res : DeleteVersionResult}
    (hr : s.versions[version.bytes]? = some r) (hm : r.matchesKey bucket key)
    (hret : Returns (removeExactVersion env bucket key version release r) s res s') : WF s' := by
  obtain rfl : version = r.versionId := Id.bytes_inj.mp (h.index.key _ _ hr)
  obtain ⟨-, ob, mk, u', c, t, e, hcase, rfl⟩ := removeExactVersion_returns hret
  obtain ⟨b, hb, -⟩ := h.owned _ _ hr
  have hb : s.readBucket bucket = some b := by rw [hm.1] at hb; exact hb
  have hindex := h.index.removeExact hr hm
  have hkeep : ∀ r' : ObjectVersionRecord, s.versions[r'.versionId.bytes]? = some r' →
      ¬ r'.matchesKey bucket key → (dropVersion (some r) s.versions)[r'.versionId.bytes]? = some r' :=
    keep_other (by rintro r' ⟨⟩; exact ⟨hr, hm⟩)
  have howned : Owned s.buckets (dropVersion (some r) s.versions) := h.owned.drop
  have hlocks : LockRecords s.buckets (dropVersion (some r) s.versions) (dropLock (some r) s.objectLocks) :=
    h.locks.drop
  refine ⟨h.buckets, usage_insert h.usage hb, h.enabled, hindex, ?_, howned, hlocks, h.uploads,
    h.uploadOwned⟩
  rcases hcase with ⟨-, rfl, rfl, -, -⟩ | ⟨hcur, rfl, rfl, -, -⟩
  · refine h.pointers.repoint hkeep fun next hnext => ?_
    obtain ⟨h1, h2⟩ := latestVersion_some (s := { s.removeVersion r with
      nullVersions := clearNullRow (objectKey bucket key) r.versionId r s.nullVersions }) hindex hnext
    exact ⟨h2, h1⟩
  · -- the key's pointer names another version, which is still there
    refine h.pointers.change hkeep (fun _ _ => rfl) (fun _ _ => rfl) ?_ ?_ (h.pointers.exclusive _)
    · intro m hob
      obtain ⟨hk, n, hrow⟩ := h.pointers.object _ m hob
      obtain ⟨h1, h2⟩ := objectKey_inj hk
      refine ⟨h1.symm, h2.symm, n, ?_⟩
      rw [Table.lookup_erase, if_neg, hrow]
      intro e
      rw [Id.bytes_inj] at e
      exact hcur (by simp only [Catalog.currentVersion, hob, e])
    · intro m hmk
      obtain ⟨hk, n, hrow⟩ := h.pointers.marker _ m hmk
      obtain ⟨h1, h2⟩ := objectKey_inj hk
      refine ⟨h1.symm, h2.symm, n, ?_⟩
      rw [Table.lookup_erase, if_neg, hrow]
      intro e
      rw [Id.bytes_inj] at e
      have hno : s.objects[objectKey bucket key]? = none :=
        (h.pointers.exclusive _).resolve_right (by rw [hmk]; simp)
      exact hcur (by simp only [Catalog.currentVersion, hno, hmk, Option.map_some, e])

end Remove

/-! ## Bucket records -/

section Buckets

variable {buckets buckets' : Table Bytes Bucket} {names : Table String Bucket} {b : Bucket}

/-- Every bucket is still there, with Object Lock on or off as before. -/
def SameLock (buckets buckets' : Table Bytes Bucket) : Prop :=
  ∀ (k : Bytes) (b : Bucket), buckets[k]? = some b →
    ∃ b', buckets'[k]? = some b' ∧ b'.objectLock.isSome = b.objectLock.isSome

theorem Owned.sameLock {versions : Table Bytes ObjectVersionRecord} (h : Owned buckets versions)
    (hb : SameLock buckets buckets') : Owned buckets' versions := by
  intro k r hr
  obtain ⟨b, hrow, hn⟩ := h k r hr
  obtain ⟨b', hrow', hl⟩ := hb _ _ hrow
  exact ⟨b', hrow', fun e => hn (hl ▸ e)⟩

theorem LockRecords.sameLock {versions : Table Bytes ObjectVersionRecord} {locks : Table Bytes ObjectLockState}
    (h : LockRecords buckets versions locks) (hb : SameLock buckets buckets') :
    LockRecords buckets' versions locks := by
  intro k state hk
  obtain ⟨hun, m, n, b, hrow, hbr, hl⟩ := h k state hk
  obtain ⟨b', hrow', hl'⟩ := hb _ _ hbr
  exact ⟨hun, m, n, b', hrow, hrow', hl'.trans hl⟩

theorem sameLock_insert {k : Bytes}
    (h : ∀ old, buckets[k]? = some old → b.objectLock.isSome = old.objectLock.isSome) :
    SameLock buckets (buckets.insert k b) := by
  intro k' old hold
  rw [Table.lookup_insert]
  by_cases hk : k' = k
  · subst hk
    exact ⟨b, if_pos rfl, h old hold⟩
  · exact ⟨old, by rw [if_neg hk, hold], rfl⟩

theorem BucketIndex.create (h : BucketIndex buckets names) (hid : buckets[bucketKey b.id]? = none)
    (hname : names[b.name.value]? = none) :
    BucketIndex (buckets.insert (bucketKey b.id) b) (names.insert b.name.value b) := by
  refine ⟨?_, ?_⟩
  · intro k b' hk
    rcases Table.of_lookup_insert hk with ⟨e, rfl⟩ | ⟨-, hk⟩
    · exact ⟨e, Table.lookup_insert_self _ _ _⟩
    · obtain ⟨h1, h2⟩ := h.bucket k b' hk
      refine ⟨h1, ?_⟩
      rw [Table.lookup_insert, if_neg, h2]
      intro e'
      rw [e', hname] at h2
      cases h2
  · intro n b' hn
    rcases Table.of_lookup_insert hn with ⟨e, rfl⟩ | ⟨-, hn⟩
    · exact ⟨e, Table.lookup_insert_self _ _ _⟩
    · obtain ⟨h1, h2⟩ := h.name n b' hn
      refine ⟨h1, ?_⟩
      rw [Table.lookup_insert, if_neg, h2]
      intro e'
      rw [e', hid] at h2
      cases h2

theorem BucketIndex.update (h : BucketIndex buckets names) {id : BucketId} {old : Bucket}
    (hold : buckets[bucketKey id]? = some old) (hid : b.id = old.id) (hname : b.name = old.name) :
    BucketIndex (buckets.insert (bucketKey id) b) (names.insert b.name.value b) := by
  obtain ⟨hk, hn⟩ := h.bucket _ _ hold
  refine ⟨?_, ?_⟩
  · intro k b' hb'
    rcases Table.of_lookup_insert hb' with ⟨e, rfl⟩ | ⟨e, hb'⟩
    · exact ⟨by rw [e, hk, hid], Table.lookup_insert_self _ _ _⟩
    · obtain ⟨h1, h2⟩ := h.bucket k b' hb'
      refine ⟨h1, ?_⟩
      rw [Table.lookup_insert, if_neg, h2]
      intro e'
      rw [e', hname, hn, Option.some.injEq] at h2
      exact e (by rw [h1, ← h2, hk])
  · intro n b' hb'
    rcases Table.of_lookup_insert hb' with ⟨e, rfl⟩ | ⟨e, hb'⟩
    · exact ⟨e, by rw [hid, ← hk, Table.lookup_insert_self]⟩
    · obtain ⟨h1, h2⟩ := h.name n b' hb'
      refine ⟨h1, ?_⟩
      rw [Table.lookup_insert, if_neg, h2]
      intro e'
      rw [e', hold, Option.some.injEq] at h2
      exact e (by rw [h1, ← h2, hname])

theorem BucketIndex.delete (h : BucketIndex buckets names) {name : String} (hb : names[name]? = some b) :
    BucketIndex (buckets.erase (bucketKey b.id)) (names.erase name) := by
  obtain ⟨hn, hrow⟩ := h.name _ _ hb
  refine ⟨?_, ?_⟩
  · intro k b' hk
    obtain ⟨e, hk⟩ := Table.of_lookup_erase hk
    obtain ⟨h1, h2⟩ := h.bucket k b' hk
    refine ⟨h1, ?_⟩
    rw [Table.lookup_erase, if_neg, h2]
    intro e'
    rw [e', hb, Option.some.injEq] at h2
    exact e (by rw [h1, ← h2])
  · intro n b' hk
    obtain ⟨e, hk⟩ := Table.of_lookup_erase hk
    obtain ⟨h1, h2⟩ := h.name n b' hk
    refine ⟨h1, ?_⟩
    rw [Table.lookup_erase, if_neg, h2]
    intro e'
    rw [e', hrow, Option.some.injEq] at h2
    exact e (by rw [h1, ← h2, hn])

/-- A new bucket under Object Lock is version-enabled. -/
theorem checkNewBucket_ok (h : checkNewBucket b = .ok ()) (hl : b.objectLock.isSome = true) :
    b.versioning = .enabled := by
  unfold checkNewBucket at h
  cases ho : b.objectLock with
  | none => rw [ho] at hl; cases hl
  | some c =>
    rw [ho] at h
    simp only at h
    split at h
    · cases h
    · split_ifs at h with hv
      exact hv

theorem WF.createBucket (h : WF s) {u : Unit} (hret : Returns (createBucketTx env b) s u s') : WF s' := by
  obtain ⟨hcheck, hid, hname, t, e, -, rfl⟩ := createBucketTx_returns hret
  have hsame : SameLock s.buckets (s.buckets.insert (bucketKey b.id) b) :=
    sameLock_insert fun old hold => by rw [hid] at hold; cases hold
  refine ⟨h.buckets.create hid hname, ?_, ?_, h.index, h.pointers, h.owned.sameLock hsame,
    h.locks.sameLock hsame, h.uploads, ?_⟩
  · intro k
    rw [Table.lookup_insert, Table.lookup_insert]
    by_cases hk : k = bucketKey b.id
    · rw [if_pos hk, if_pos hk]
      rfl
    · rw [if_neg hk, if_neg hk, h.usage]
  · intro k b' hk hl
    rcases Table.of_lookup_insert hk with ⟨-, rfl⟩ | ⟨-, hk⟩
    · exact checkNewBucket_ok hcheck hl
    · exact h.enabled k b' hk hl
  · intro k up hup
    obtain ⟨b', hb'⟩ := h.uploadOwned k up hup
    obtain ⟨b'', hb'', -⟩ := hsame _ _ hb'
    exact ⟨b'', hb''⟩

/-- A change of a bucket record that keeps its identity and leaves Object Lock on or off. -/
def KeepsLock (old new : Bucket) : Prop :=
  new.id = old.id ∧ new.name = old.name ∧ new.objectLock.isSome = old.objectLock.isSome ∧
    (new.objectLock.isSome = true → old.versioning = .enabled → new.versioning = .enabled)

theorem WF.updateBucket (h : WF s) {id : BucketId} {update : Bucket → Except MetadataError Bucket}
    (hupdate : ∀ old new, update old = .ok new → KeepsLock old new)
    (hret : Returns (updateBucketTx id update) s b s') : WF s' := by
  obtain ⟨old, hold, hup, rfl⟩ := updateBucketTx_returns hret
  obtain ⟨hid, hname, hlock, hver⟩ := hupdate old b hup
  have hsame : SameLock s.buckets (s.buckets.insert (bucketKey id) b) := by
    refine sameLock_insert fun old' hold' => ?_
    rw [show s.buckets[bucketKey id]? = some old from hold, Option.some.injEq] at hold'
    rw [← hold', hlock]
  refine ⟨h.buckets.update hold hid hname, ?_, ?_, h.index, h.pointers, h.owned.sameLock hsame,
    h.locks.sameLock hsame, h.uploads, ?_⟩
  · intro k
    rw [Table.lookup_insert, h.usage]
    by_cases hk : k = bucketKey id
    · rw [if_pos hk, hk, show s.buckets[bucketKey id]? = some old from hold]
      rfl
    · rw [if_neg hk]
  · intro k b' hk hl
    rcases Table.of_lookup_insert hk with ⟨-, rfl⟩ | ⟨-, hk⟩
    · exact hver hl (h.enabled _ _ hold (hlock ▸ hl))
    · exact h.enabled k b' hk hl
  · intro k up hup
    obtain ⟨b', hb'⟩ := h.uploadOwned k up hup
    obtain ⟨b'', hb'', -⟩ := hsame _ _ hb'
    exact ⟨b'', hb''⟩

theorem changeVersioning_keepsLock {state : VersioningState} {old new : Bucket}
    (h : changeVersioning state old = .ok new) : KeepsLock old new := by
  unfold changeVersioning at h
  split_ifs at h with h1 h2
  obtain rfl := Except.ok.inj h
  refine ⟨rfl, rfl, rfl, fun hl _ => ?_⟩
  by_contra hne
  exact h2 ⟨hl, hne⟩

theorem changeObjectLock_keepsLock {c : ObjectLockConfiguration} {old new : Bucket}
    (h : changeObjectLock c old = .ok new) : KeepsLock old new := by
  unfold changeObjectLock at h
  split_ifs at h with h1
  obtain rfl := Except.ok.inj h
  refine ⟨rfl, rfl, ?_, fun _ he => he⟩
  simp only [Option.isNone_iff_eq_none] at h1
  rw [Option.isSome_some, Option.isSome_iff_ne_none.mpr h1]

/-- A bucket without versions and uploads can go. -/
theorem WF.deleteBucket (h : WF s) {name : BucketName} {at_ : DateTime}
    (hret : Returns (deleteBucketTx env name at_) s b s')
    (hempty : ∀ (k : Bytes) (r : ObjectVersionRecord), s.versions[k]? = some r → r.bucketId ≠ b.id) :
    WF s' := by
  obtain ⟨hb, -, hmp, t, e, rules, -, rfl⟩ := deleteBucketTx_returns hret
  have hscan : s.multipartOrder.rowsIn (bucketKey b.id) (prefixSuccessor (bucketKey b.id)) = [] := by
    simpa [Catalog.hasMultipart] using hmp
  refine ⟨h.buckets.delete hb, ?_, ?_, h.index, h.pointers, ?_, ?_, h.uploads, ?_⟩
  · intro k
    rw [Table.lookup_erase, Table.lookup_erase]
    by_cases hk : k = bucketKey b.id
    · rw [if_pos hk, if_pos hk]
      rfl
    · rw [if_neg hk, if_neg hk, h.usage]
  · intro k b' hk
    exact h.enabled k b' (Table.of_lookup_erase hk).2
  · intro k r hr
    obtain ⟨b', hrow, hn⟩ := h.owned k r hr
    refine ⟨b', ?_, hn⟩
    rw [Table.lookup_erase, if_neg fun e => hempty k r hr (bucketKey_inj e), hrow]
  · intro k state hk
    obtain ⟨hun, m, n, b', hrow, hbr, hl⟩ := h.locks k state hk
    refine ⟨hun, m, n, b', hrow, ?_, hl⟩
    have hne : m.bucketId ≠ b.id := hempty k _ hrow
    rw [Table.lookup_erase, if_neg fun e => hne (bucketKey_inj e), hbr]
  · intro k up hup
    obtain ⟨b', hb'⟩ := h.uploadOwned k up hup
    have hne := h.uploads.no_upload_of_scan hscan hup
    exact ⟨b', by rw [Table.lookup_erase, if_neg fun e => hne (bucketKey_inj e), hb']⟩

end Buckets

/-! ## Object commands -/

section Objects

theorem WF.putObject (h : WF s) {m : ObjectMetadata} {lock : Option ObjectLockState} {origin : WriteOrigin}
    {res : ObjectCommitResult} (hret : Returns (putObjectTx env m lock origin) s res s')
    (hfresh : s.versions[m.versionId.bytes]? = none) : WF s' := by
  obtain ⟨b, isNull, replaced, u', hb, hver, hnull, -, -, -, -, hlock, t, e, -, rfl⟩ :=
    putObjectTx_returns hret
  rw [← Table.insert_erase]
  exact h.publish (r := .object m isNull) hb hver hnull ⟨rfl, rfl⟩ rfl hfresh
    fun state hs hu => ⟨hlock state hs hu, rfl⟩

theorem isNull_iff {v : VersioningState} {isNull : Bool} (hv : v ≠ .disabled)
    (h : isNull = true ↔ v = .suspended) : isNull = true ↔ v ≠ .enabled := by
  rw [h]
  cases v
  · exact absurd rfl hv
  · decide
  · decide

theorem WF.deleteObject (h : WF s) {nm : NewDeleteMarker} {res : DeleteObjectResult}
    (hret : Returns (deleteObjectTx env bucket key nm) s res s')
    (hfresh : s.versions[nm.versionId.bytes]? = none) : WF s' := by
  obtain ⟨record, s₁, r, hb, hdel, t, e, -, rfl⟩ := deleteObjectTx_returns hret
  by_cases hv : record.versioning = .disabled
  · rw [hv] at hdel
    obtain ⟨removed, hnull, -, rfl, t', -, rfl⟩ := deleteCurrent_disabled hdel
    exact h.unpublish hb hnull
  · obtain ⟨isNull, removed, hn, hnull, -, rfl, t', -, rfl⟩ := deleteCurrent_marker hv hdel
    rw [← Table.insert_erase]
    exact h.publish (r := .deleteMarker (newMarker bucket key nm) isNull) hb (isNull_iff hv hn) hnull
      ⟨rfl, rfl⟩ rfl hfresh fun state (hs : none = some state) => by cases hs

theorem WF.deleteObjectVersion (h : WF s) {version : VersionId} {release : LockRelease}
    {res : Option DeleteVersionResult}
    (hret : Returns (deleteObjectVersionTx env bucket key version release) s res s') : WF s' := by
  rcases deleteObjectVersionTx_returns hret with rfl | ⟨r, res', hr, hm, hrem⟩
  · exact h
  · exact h.removeExact hr hm hrem

theorem WF.putObjectLock (h : WF s) {version : VersionId} {requested updated : ObjectLockState}
    {release : LockRelease}
    (hret : Returns (putObjectLockTx bucket key version requested release) s updated s') : WF s' := by
  obtain ⟨b, m, n, state, c, hb, hl, hrow, hmb, -, -, -, rfl⟩ := putObjectLockTx_returns hret
  refine ⟨h.buckets, h.usage, h.enabled, h.index, h.pointers, h.owned, ?_, h.uploads, h.uploadOwned⟩
  intro k st hk
  by_cases hu : updated.isUnlocked = true
  · simp only [if_pos hu, Table.lookup_erase] at hk
    split_ifs at hk
    exact h.locks k st hk
  · simp only [if_neg hu, Table.lookup_insert] at hk
    split_ifs at hk with hkey
    · obtain rfl := Option.some.inj hk
      subst hmb
      exact ⟨by simpa using hu, m, n, b, by rw [hkey]; exact hrow, hb, hl⟩
    · exact h.locks k st hk

end Objects

/-! ## Uploads -/

section Uploads

theorem WF.createUpload (h : WF s) {up : MultipartUpload} {u : Unit}
    (hret : Returns (createMultipartUploadTx up) s u s') : WF s' := by
  obtain ⟨hb, hnew, rfl⟩ := createMultipartUploadTx_returns hret
  refine ⟨h.buckets, h.usage, h.enabled, h.index, h.pointers, h.owned, h.locks, h.uploads.create hnew, ?_⟩
  intro k u' hu'
  rcases Table.of_lookup_insert hu' with ⟨-, rfl⟩ | ⟨-, hu'⟩
  · exact Option.isSome_iff_exists.mp hb
  · exact h.uploadOwned k u' hu'

theorem WF.setState (h : WF s) {id : UploadId} {up : MultipartUpload} (hu : s.multipart[id.bytes]? = some up)
    (state : MultipartUploadState) :
    WF { s with multipart := s.multipart.insert id.bytes { up with state := state } } := by
  refine ⟨h.buckets, h.usage, h.enabled, h.index, h.pointers, h.owned, h.locks, h.uploads.setState hu state,
    ?_⟩
  intro k u' hu'
  rcases Table.of_lookup_insert hu' with ⟨-, rfl⟩ | ⟨-, hu'⟩
  · exact h.uploadOwned _ up hu
  · exact h.uploadOwned k u' hu'

theorem WF.putPart (h : WF s) {part : UploadedPart} {previous : Option UploadedPart}
    (hret : Returns (putMultipartPartTx part) s previous s') : WF s' := by
  obtain ⟨up, b, proposed, t, hu, -, hb, -, -, -, -, rfl⟩ := putMultipartPartTx_returns hret
  exact ⟨h.buckets, usage_insert h.usage hb, h.enabled, h.index, h.pointers, h.owned, h.locks,
    h.uploads.putPart hu, h.uploadOwned⟩

theorem WF.removeUpload (h : WF s) {id : UploadId} {requireCompleting : Bool} {at_ : DateTime}
    {res : MultipartCleanupResult}
    (hret : Returns (removeMultipartTx env id requireCompleting at_) s res s') : WF s' := by
  obtain ⟨up, bytes, t, e, hu, -, -, -, -, -, rfl⟩ := removeMultipartTx_returns hret
  obtain ⟨b, hb⟩ := h.uploadOwned _ _ hu
  have hparts : (s.listParts id).foldl (fun t part => t.erase (partKey id part.number)) s.parts =
      s.parts.filter fun _ p => decide (p.uploadId ≠ id) := h.uploads.erase_partsOf id
  rw [hparts]
  refine ⟨h.buckets, usage_insert h.usage hb, h.enabled, h.index, h.pointers, h.owned, h.locks,
    h.uploads.remove hu, ?_⟩
  intro k u' hu'
  exact h.uploadOwned k u' (Table.of_lookup_erase hu').2

/-- What recovery has left to do: uploads that are still there as they were found, no two alike. -/
def Pending (l : List MultipartUpload) (s : Catalog) : Prop :=
  l.Pairwise (fun a b => a.id ≠ b.id) ∧ ∀ up ∈ l, s.multipart[up.id.bytes]? = some up

theorem pending_rows (h : UploadIndex s.multipart s.multipartOrder s.parts) (p : MultipartUpload → Bool) :
    Pending (s.multipart.rows.filter p) s := by
  refine ⟨List.Pairwise.filter p (List.pairwise_map.mpr ?_), ?_⟩
  · refine List.Pairwise.imp_of_mem ?_ (Std.ExtTreeMap.distinct_keys_toList (t := s.multipart))
    rintro ⟨a, u⟩ ⟨b, v⟩ ha hb hab e
    have hu := h.key a u (Std.ExtTreeMap.mem_toList_iff_getElem?_eq_some.mp ha)
    have hv := h.key b v (Std.ExtTreeMap.mem_toList_iff_getElem?_eq_some.mp hb)
    exact hab (by simp only at e; rw [hu, hv, e]; exact Std.ReflCmp.compare_self)
  · intro up hup
    obtain ⟨k, hk⟩ := Table.mem_rows.mp (List.mem_filter.mp hup).1
    rw [← h.key k up hk]
    exact hk

/-- The invariant rule of recovery: what finishing an upload and reactivating an upload keep, recovery
keeps. -/
theorem recover_preserves {Q : Catalog → Prop} (hwf : ∀ s, Q s → WF s)
    (hfinish : ∀ s s' id res, Q s → Returns (removeMultipartTx env id true .epoch) s res s' → Q s')
    (hreset : ∀ (s : Catalog) (up : MultipartUpload), Q s → s.multipart[up.id.bytes]? = some up →
      Q { s with multipart := s.multipart.insert up.id.bytes { up with state := .active } })
    {res : MultipartCleanupResult} (hQ : Q s) (hret : Returns (recoverMultipartCompletionsTx env) s res s') :
    Q s' := by
  simp only [recoverMultipartCompletionsTx, returns_bind, returns_read, returns_pure, exists_and_left,
    exists_eq_left, and_assoc] at hret
  obtain ⟨cleaned, s₁, hloop, -, rfl⟩ := hret
  refine (mapM_preserves (P := fun l s => Q s ∧ Pending l s) ?_
    ⟨hQ, pending_rows (hwf s hQ).uploads _⟩ hloop).1
  rintro up l s₀ parts s₂ ⟨hQ₀, hdist, hrows⟩ hup
  obtain ⟨hne, hdist⟩ := List.pairwise_cons.mp hdist
  have hrow := hrows up List.mem_cons_self
  have hne' : ∀ v ∈ l, v.id.bytes ≠ up.id.bytes := fun v hv e => hne v hv (Id.bytes_inj.mp e).symm
  rcases recoverUpload_returns hup with rfl | ⟨res', hrem⟩ | rfl
  · exact ⟨hQ₀, hdist, fun v hv => hrows v (List.mem_cons_of_mem _ hv)⟩
  · refine ⟨hfinish _ _ _ _ hQ₀ hrem, hdist, fun v hv => ?_⟩
    obtain ⟨_, _, _, _, -, -, -, -, -, -, rfl⟩ := removeMultipartTx_returns hrem
    rw [Table.lookup_erase, if_neg (hne' v hv)]
    exact hrows v (List.mem_cons_of_mem _ hv)
  · refine ⟨hreset _ _ hQ₀ hrow, hdist, fun v hv => ?_⟩
    rw [Table.lookup_insert, if_neg (hne' v hv)]
    exact hrows v (List.mem_cons_of_mem _ hv)

end Uploads

end RecordStore.Metadata

import RecordStore.Metadata.Keys

/-!
# Metadata.VersionIndex — the version history and its redundant indexes

`VERSIONS` holds the history, `VERSION_ORDER` and `NULL_VERSIONS` index it, `OBJECTS` and `MARKERS` point
into it.  `VersionIndex` says that the two indexes are exact, `Pointers` that every pointer names a
version of its own key.  Both are kept by the two primitive changes of history, the removal of a row
and the insertion of a fresh one; what the commands do is a composition of these.
-/

namespace RecordStore.Metadata

open RecordStore.Lib RecordStore.Core

/-! ## Order and null index -/

/-- The indexes hold exactly one entry per version, and one per null version. -/
structure VersionIndex (versions : Table Bytes ObjectVersionRecord) (order nulls : Table Bytes Bytes) :
    Prop where
  key : ∀ (k : Bytes) (r : ObjectVersionRecord), versions[k]? = some r → k = r.versionId.bytes
  order_iff : ∀ (k id : Bytes), order[k]? = some id ↔
    ∃ r : ObjectVersionRecord, versions[id]? = some r ∧ k = versionOrderKey r
  null_iff : ∀ (k id : Bytes), nulls[k]? = some id ↔
    ∃ r : ObjectVersionRecord, versions[id]? = some r ∧ r.isNull = true ∧ k = objectKey r.bucketId r.key

namespace VersionIndex

variable {versions : Table Bytes ObjectVersionRecord} {order nulls : Table Bytes Bytes}
  {r : ObjectVersionRecord}

theorem empty : VersionIndex ∅ ∅ ∅ := by
  refine ⟨?_, ?_, ?_⟩
  · intro k r h
    rw [Table.lookup_empty] at h
    cases h
  all_goals
    intro k id
    simp

/-- A row under a version's own key is that version. -/
theorem eq_of_key (h : VersionIndex versions order nulls) {k : Bytes} {r' : ObjectVersionRecord}
    (hr : versions[r.versionId.bytes]? = some r) (hr' : versions[k]? = some r')
    (e : r'.versionId = r.versionId) : r' = r := by
  have hk := h.key _ _ hr'
  rw [hk, e, hr] at hr'
  exact (Option.some.inj hr').symm

/-- Two null versions of one key are the same version. -/
theorem null_unique (h : VersionIndex versions order nulls) {k k' : Bytes} {r' : ObjectVersionRecord}
    (hr : versions[k]? = some r) (hr' : versions[k']? = some r') (hn : r.isNull = true)
    (hn' : r'.isNull = true) (hb : r'.bucketId = r.bucketId) (hkey : r'.key = r.key) : r' = r := by
  have h1 := (h.null_iff (objectKey r.bucketId r.key) k).mpr ⟨r, hr, hn, rfl⟩
  have h2 := (h.null_iff (objectKey r.bucketId r.key) k').mpr ⟨r', hr', hn', by rw [hb, hkey]⟩
  rw [h1, Option.some.injEq] at h2
  rw [← h2, hr] at hr'
  exact (Option.some.inj hr').symm

theorem ordered (h : VersionIndex versions order nulls) :
    Table.Indexes order versions (fun _ => true) versionOrderKey :=
  Table.indexes_all.mpr h.order_iff

theorem nulled (h : VersionIndex versions order nulls) :
    Table.Indexes nulls versions ObjectVersionRecord.isNull fun r => objectKey r.bucketId r.key :=
  h.null_iff

/-- Removing a version with its index entries. -/
theorem remove (h : VersionIndex versions order nulls) (hr : versions[r.versionId.bytes]? = some r) :
    VersionIndex (versions.erase r.versionId.bytes) (order.erase (versionOrderKey r))
      (if r.isNull then nulls.erase (objectKey r.bucketId r.key) else nulls) :=
  ⟨fun k r' hr' => h.key k r' (Table.of_lookup_erase hr').2, Table.indexes_all.mp (h.ordered.erase hr),
    h.nulled.erase hr⟩

/-- Inserting a fresh version with its index entries; a null version needs its key's null row free. -/
theorem insert (h : VersionIndex versions order nulls) (hr : versions[r.versionId.bytes]? = none)
    (hn : r.isNull = true → nulls[objectKey r.bucketId r.key]? = none) :
    VersionIndex (versions.insert r.versionId.bytes r) (order.insert (versionOrderKey r) r.versionId.bytes)
      (if r.isNull then nulls.insert (objectKey r.bucketId r.key) r.versionId.bytes else nulls) := by
  have hother : ∀ (k : Bytes) (r' : ObjectVersionRecord), versions[k]? = some r' →
    versionOrderKey r ≠ versionOrderKey r' := by
    intro k r' hr' e
    rw [h.key k r' hr', ← versionOrderKey_inj e, hr] at hr'
    cases hr'
  refine ⟨fun k r' hr' => ?_, Table.indexes_all.mp (h.ordered.insert hr fun _ => h.ordered.free hother),
    h.nulled.insert hr hn⟩
  rcases Table.of_lookup_insert hr' with ⟨hk, rfl⟩ | ⟨-, hr'⟩
  · exact hk
  · exact h.key k r' hr'

end VersionIndex

/-! ## Current pointers -/

/-- Every pointer names a version of its key, and no key has two. -/
structure Pointers (versions : Table Bytes ObjectVersionRecord) (objects : Table Bytes ObjectMetadata)
    (markers : Table Bytes DeleteMarker) : Prop where
  object : ∀ (k : Bytes) (m : ObjectMetadata), objects[k]? = some m → k = objectKey m.bucketId m.key ∧
    ∃ n, versions[m.versionId.bytes]? = some (.object m n)
  marker : ∀ (k : Bytes) (m : DeleteMarker), markers[k]? = some m → k = objectKey m.bucketId m.key ∧
    ∃ n, versions[m.versionId.bytes]? = some (.deleteMarker m n)
  exclusive : ∀ k : Bytes, objects[k]? = none ∨ markers[k]? = none

namespace Pointers

variable {versions versions' : Table Bytes ObjectVersionRecord} {objects objects' : Table Bytes ObjectMetadata}
  {markers markers' : Table Bytes DeleteMarker} {bucket : BucketId} {key : ObjectKey}

theorem empty : Pointers ∅ ∅ ∅ := by
  refine ⟨?_, ?_, fun k => .inl (Table.lookup_empty k)⟩
  all_goals
    intro k m h
    rw [Table.lookup_empty] at h
    cases h

/-- A change of one key's history: versions of other keys stay, other keys' pointers stay, and the key's
own pointer is again right. -/
theorem change (h : Pointers versions objects markers)
    (hkeep : ∀ r : ObjectVersionRecord, versions[r.versionId.bytes]? = some r → ¬ r.matchesKey bucket key →
      versions'[r.versionId.bytes]? = some r)
    (ho : ∀ k : Bytes, k ≠ objectKey bucket key → objects'[k]? = objects[k]?)
    (hm : ∀ k : Bytes, k ≠ objectKey bucket key → markers'[k]? = markers[k]?)
    (hobj : ∀ m : ObjectMetadata, objects'[objectKey bucket key]? = some m → m.bucketId = bucket ∧ m.key = key ∧
      ∃ n, versions'[m.versionId.bytes]? = some (.object m n))
    (hmark : ∀ m : DeleteMarker, markers'[objectKey bucket key]? = some m → m.bucketId = bucket ∧ m.key = key ∧
      ∃ n, versions'[m.versionId.bytes]? = some (.deleteMarker m n))
    (hex : objects'[objectKey bucket key]? = none ∨ markers'[objectKey bucket key]? = none) :
    Pointers versions' objects' markers' := by
  refine ⟨?_, ?_, ?_⟩
  · intro k m hk
    by_cases e : k = objectKey bucket key
    · subst e
      obtain ⟨rfl, rfl, hn⟩ := hobj m hk
      exact ⟨rfl, hn⟩
    · rw [ho k e] at hk
      obtain ⟨hkey, n, hn⟩ := h.object k m hk
      refine ⟨hkey, n, hkeep (.object m n) hn ?_⟩
      rintro ⟨h1, h2⟩
      exact e (by rw [hkey]; exact congrArg₂ objectKey h1 h2)
  · intro k m hk
    by_cases e : k = objectKey bucket key
    · subst e
      obtain ⟨rfl, rfl, hn⟩ := hmark m hk
      exact ⟨rfl, hn⟩
    · rw [hm k e] at hk
      obtain ⟨hkey, n, hn⟩ := h.marker k m hk
      refine ⟨hkey, n, hkeep (.deleteMarker m n) hn ?_⟩
      rintro ⟨h1, h2⟩
      exact e (by rw [hkey]; exact congrArg₂ objectKey h1 h2)
  · intro k
    by_cases e : k = objectKey bucket key
    · rw [e]
      exact hex
    · rw [ho k e, hm k e]
      exact h.exclusive k

end Pointers

end RecordStore.Metadata

import RecordStore.Metadata.Failures

/-!
# Metadata.Listing — the paged listings, and the exactness of the indexes they read

`list_objects` walks the current objects.  `list_object_versions` and `list_multipart_uploads` walk an
index table and resolve every row in the table it points into.  In every run of fresh commands the indexes are
exact, so that every row resolves and the error for one that does not is never returned.
-/

namespace RecordStore.Metadata

open RecordStore.Lib RecordStore.Core Tx

/-! ## Current objects -/

structure ListObjectsRequest where
  bucketId : BucketId
  keyPrefix : String
  startAfter : Option String
  limit : Nat

structure ObjectMetadataPage where
  objects : List ObjectMetadata
  nextKey : Option String
  deriving DecidableEq

/-- Where the walk over `OBJECTS` starts: at the prefix, or right after the key that ended the last page. -/
def objectStart (request : ListObjectsRequest) : Bytes :=
  request.startAfter.elim (objectPrefix request.bucketId request.keyPrefix) fun key =>
    objectPrefix request.bucketId key ++ [0]

def objectPage (limit : Nat) (out : List ObjectMetadata) : ObjectMetadataPage :=
  if out.length > limit then
    { objects := out.dropLast, nextKey := out.dropLast.getLast?.map fun m => m.key.value }
  else { objects := out, nextKey := none }

def listObjects (s : Catalog) (request : ListObjectsRequest) : ObjectMetadataPage :=
  if request.limit = 0 then { objects := [], nextKey := none }
  else
    let stop := prefixSuccessor (objectPrefix request.bucketId request.keyPrefix)
    let rows := (s.objects.rowsIn (objectStart request) stop).take (request.limit + 1)
    objectPage request.limit (rows.map Prod.snd)

/-! ## Object versions -/

structure ListObjectVersionsRequest where
  bucketId : BucketId
  keyPrefix : String
  keyMarker : Option String
  versionIdMarker : Option VersionId
  limit : Nat

/-- Version entry with current-state annotation. -/
structure ListedObjectVersion where
  record : ObjectVersionRecord
  isLatest : Bool
  deriving DecidableEq

structure ObjectVersionPage where
  versions : List ListedObjectVersion
  nextKeyMarker : Option String
  nextVersionIdMarker : Option VersionId
  deriving DecidableEq

/-- Where the walk over `VERSION_ORDER` starts: at the prefix, or right after the marker. -/
def versionStart (s : Catalog) (request : ListObjectVersionsRequest) : Except MetadataError Bytes :=
  match request.keyMarker, request.versionIdMarker with
  | some markerKey, some markerId =>
    match s.versions[markerId.bytes]? with
    | none => .error (.database "list versions" "unknown marker")
    | some record =>
      if record.key.value ≠ markerKey ∨ ¬ record.matchesKey request.bucketId record.key then
        .error (.database "list versions" "mismatched marker")
      else .ok (versionOrderKey record ++ [0])
  | _, _ => .ok (objectPrefix request.bucketId request.keyPrefix)

/-- The version behind an index row. -/
def resolveVersion (s : Catalog) (bucket : BucketId) (id : Bytes) : Except MetadataError ListedObjectVersion :=
  match s.versions[id]? with
  | none => .error (inconsistentIndex "list versions")
  | some record =>
    .ok { record, isLatest := s.currentVersion (objectKey bucket record.key) = some record.versionId }

/-- The page of what was read: one entry more than the limit says that there is a next page. -/
def versionPage (limit : Nat) (out : List ListedObjectVersion) : ObjectVersionPage :=
  if out.length > limit then
    { versions := out.dropLast
      nextKeyMarker := out.dropLast.getLast?.map fun item => item.record.key.value
      nextVersionIdMarker := out.dropLast.getLast?.map fun item => item.record.versionId }
  else { versions := out, nextKeyMarker := none, nextVersionIdMarker := none }

def listObjectVersions (s : Catalog) (request : ListObjectVersionsRequest) :
    Except MetadataError ObjectVersionPage :=
  if request.keyMarker.isSome ≠ request.versionIdMarker.isSome then
    .error (.database "list versions" "both markers are required")
  else if request.limit = 0 then
    .ok { versions := [], nextKeyMarker := none, nextVersionIdMarker := none }
  else do
    let start ← versionStart s request
    let stop := prefixSuccessor (objectPrefix request.bucketId request.keyPrefix)
    let rows := (s.versionOrder.rowsIn start stop).take (request.limit + 1)
    let out ← rows.mapM fun row => resolveVersion s request.bucketId row.2
    return versionPage request.limit out

/-! ## Multipart uploads -/

structure ListMultipartUploadsRequest where
  bucketId : BucketId
  keyPrefix : String
  keyMarker : Option String
  uploadIdMarker : Option UploadId
  limit : Nat

structure MultipartUploadPage where
  uploads : List MultipartUpload
  nextUploadIdMarker : Option UploadId
  deriving DecidableEq

/-- The upload the marker names, when it is still there and belongs to the bucket. -/
def uploadMarker (s : Catalog) (request : ListMultipartUploadsRequest) : Option MultipartUpload :=
  request.uploadIdMarker.bind fun id =>
    (s.multipart[id.bytes]?).filter fun upload => upload.bucketId = request.bucketId

/-- Where the markers resume the walk: just past the marker upload, at the marker key's first upload when
the marker upload is gone, or past every upload of the marker key. -/
def uploadResume (s : Catalog) (request : ListMultipartUploadsRequest) : Except MetadataError (Option Bytes) :=
  match request.keyMarker, uploadMarker s request, request.uploadIdMarker with
  | some key, some upload, some _ =>
    if upload.key.value = key then .ok (some (multipartOrderKey upload ++ [0]))
    else .ok (some (objectPrefix request.bucketId key ++ [0]))
  | some key, none, some _ => .ok (some (objectPrefix request.bucketId key ++ [0]))
  | some key, _, none => .ok (some (objectPrefix request.bucketId key ++ [1]))
  | none, some upload, some _ => .ok (some (multipartOrderKey upload ++ [0]))
  | none, none, some _ => .error .multipartUploadNotFound
  | none, _, none => .ok none

/-- `max` in the order of byte strings. -/
def maxBytes (a b : Bytes) : Bytes := if compare a b = .gt then a else b

def resolveUpload (s : Catalog) (id : Bytes) : Except MetadataError MultipartUpload :=
  match s.multipart[id]? with
  | none => .error (inconsistentIndex "list multipart")
  | some upload => .ok upload

def uploadPage (limit : Nat) (out : List MultipartUpload) : MultipartUploadPage :=
  if out.length > limit then
    { uploads := out.dropLast, nextUploadIdMarker := out.dropLast.getLast?.map (·.id) }
  else { uploads := out, nextUploadIdMarker := none }

def listMultipartUploads (s : Catalog) (request : ListMultipartUploadsRequest) :
    Except MetadataError MultipartUploadPage :=
  if request.limit = 0 then .ok { uploads := [], nextUploadIdMarker := none }
  else do
    let resume ← uploadResume s request
    let keyPrefix := objectPrefix request.bucketId request.keyPrefix
    -- a marker outside the prefix must not widen the listing
    let start := resume.elim keyPrefix fun resume => maxBytes resume keyPrefix
    let stop := prefixSuccessor keyPrefix
    if compare start stop ≠ .lt then return { uploads := [], nextUploadIdMarker := none }
    else do
      let rows := (s.multipartOrder.rowsIn start stop).take (request.limit + 1)
      let out ← rows.mapM fun row => resolveUpload s row.2
      return uploadPage request.limit out

/-! ## Resolving index rows -/

variable {s : Catalog}

section Resolve

/-- The index row of a version. -/
def versionRow (r : ObjectVersionRecord) : Bytes × Bytes := (versionOrderKey r, r.versionId.bytes)

/-- The entry a version is listed as. -/
def listed (s : Catalog) (bucket : BucketId) (r : ObjectVersionRecord) : ListedObjectVersion :=
  { record := r, isLatest := s.currentVersion (objectKey bucket r.key) = some r.versionId }

/-- Every index row resolves to the version it was made from. -/
theorem VersionIndex.resolve (h : VersionIndex s.versions s.versionOrder s.nullVersions) (bucket : BucketId)
    (rows : List (Bytes × Bytes)) (hrows : ∀ row ∈ rows, s.versionOrder[row.1]? = some row.2) :
    ∃ rs : List ObjectVersionRecord, rows = rs.map versionRow ∧
      (∀ r ∈ rs, s.versions[r.versionId.bytes]? = some r) ∧
      (rows.mapM fun row => resolveVersion s bucket row.2) = .ok (rs.map (listed s bucket)) := by
  induction rows with
  | nil => exact ⟨[], rfl, by simp, rfl⟩
  | cons row rows ih =>
    obtain ⟨rs, rfl, hall, hrs⟩ := ih fun row hrow => hrows row (List.mem_cons_of_mem _ hrow)
    obtain ⟨r, hr, hk⟩ := (h.order_iff _ _).mp (hrows row List.mem_cons_self)
    have hid := h.key _ _ hr
    refine ⟨r :: rs, ?_, ?_, ?_⟩
    · rw [List.map_cons, versionRow, ← hk, ← hid]
    · exact List.forall_mem_cons.mpr ⟨hid ▸ hr, hall⟩
    · rw [List.mapM_cons, hrs]
      simp only [resolveVersion, hr]
      rfl

/-- The index row of an upload. -/
def uploadRow (u : MultipartUpload) : Bytes × Bytes := (multipartOrderKey u, u.id.bytes)

/-- Every row of `MULTIPART_ORDER` resolves to the upload it was made from. -/
theorem UploadIndex.resolve (h : UploadIndex s.multipart s.multipartOrder s.parts) (rows : List (Bytes × Bytes))
    (hrows : ∀ row ∈ rows, s.multipartOrder[row.1]? = some row.2) :
    ∃ us : List MultipartUpload, rows = us.map uploadRow ∧ (∀ u ∈ us, s.multipart[u.id.bytes]? = some u) ∧
      (rows.mapM fun row => resolveUpload s row.2) = .ok us := by
  induction rows with
  | nil => exact ⟨[], rfl, by simp, rfl⟩
  | cons row rows ih =>
    obtain ⟨us, rfl, hall, hus⟩ := ih fun row hrow => hrows row (List.mem_cons_of_mem _ hrow)
    obtain ⟨u, hu, hk⟩ := (h.order_iff _ _).mp (hrows row List.mem_cons_self)
    have hid := h.key _ _ hu
    refine ⟨u :: us, ?_, ?_, ?_⟩
    · rw [List.map_cons, uploadRow, ← hk, ← hid]
    · exact List.forall_mem_cons.mpr ⟨hid ▸ hu, hall⟩
    · rw [List.mapM_cons, hus]
      simp only [resolveUpload, hu]
      rfl

/-- The rows a listing walks over are rows of the index. -/
theorem lookup_of_mem_take {t : Table Bytes Bytes} {lo hi : Bytes} {n : Nat} {row : Bytes × Bytes}
    (hrow : row ∈ (t.rowsIn lo hi).take n) : t[row.1]? = some row.2 :=
  (Table.mem_rowsIn.mp (List.mem_of_mem_take hrow)).1

/-- The walk starts at the prefix, or after the version that the markers name. -/
theorem versionStart_cases {request : ListObjectVersionsRequest} {start : Bytes}
    (h : versionStart s request = .ok start) :
    (request.keyMarker = none ∨ request.versionIdMarker = none) ∧
        start = objectPrefix request.bucketId request.keyPrefix ∨
      ∃ id r, request.keyMarker = some r.key.value ∧ request.versionIdMarker = some id ∧
        s.versions[id.bytes]? = some r ∧ r.bucketId = request.bucketId ∧ start = versionOrderKey r ++ [0] := by
  unfold versionStart at h
  cases hk : request.keyMarker with
  | none =>
    rw [hk] at h
    exact .inl ⟨.inl rfl, (Except.ok.inj h).symm⟩
  | some key =>
    cases hid : request.versionIdMarker with
    | none =>
      rw [hk, hid] at h
      exact .inl ⟨.inr rfl, (Except.ok.inj h).symm⟩
    | some id =>
      rw [hk, hid] at h
      dsimp only at h
      cases hv : s.versions[id.bytes]? with
      | none =>
        rw [hv] at h
        cases h
      | some r =>
        rw [hv] at h
        dsimp only at h
        by_cases hmark : r.key.value ≠ key ∨ ¬ r.matchesKey request.bucketId r.key
        · rw [if_pos hmark] at h
          cases h
        · rw [if_neg hmark] at h
          rw [not_or, not_not, not_not] at hmark
          exact .inr ⟨id, r, by rw [hmark.1], rfl, hv, hmark.2.1, (Except.ok.inj h).symm⟩

theorem versionStart_ne {request : ListObjectVersionsRequest} {operation : String} :
    versionStart s request ≠ .error (inconsistentIndex operation) := by
  unfold versionStart
  split
  · split
    · simp [inconsistentIndex]
    · split_ifs
      · simp [inconsistentIndex]
      · simp
  · simp

theorem uploadResume_ne {request : ListMultipartUploadsRequest} {operation : String} :
    uploadResume s request ≠ .error (inconsistentIndex operation) := by
  unfold uploadResume
  split
  · split_ifs <;> simp
  · simp
  · simp
  · simp
  · simp [inconsistentIndex]
  · simp

theorem listObjectVersions_ne (h : VersionIndex s.versions s.versionOrder s.nullVersions)
    (request : ListObjectVersionsRequest) (operation : String) :
    listObjectVersions s request ≠ .error (inconsistentIndex operation) := by
  unfold listObjectVersions
  split_ifs
  · simp [inconsistentIndex]
  · simp
  · cases hstart : versionStart s request with
    | error e =>
      intro he
      cases he
      exact versionStart_ne hstart
    | ok start =>
      obtain ⟨rs, -, -, hrs⟩ := h.resolve request.bucketId _ fun row hrow => lookup_of_mem_take hrow
      intro he
      simp only [bind, Except.bind] at he hrs
      rw [hrs] at he
      cases he

theorem listMultipartUploads_ne (h : UploadIndex s.multipart s.multipartOrder s.parts)
    (request : ListMultipartUploadsRequest) (operation : String) :
    listMultipartUploads s request ≠ .error (inconsistentIndex operation) := by
  unfold listMultipartUploads
  split_ifs
  · simp
  · cases hresume : uploadResume s request with
    | error e =>
      intro he
      cases he
      exact uploadResume_ne hresume
    | ok resume =>
      intro he
      simp only [bind, Except.bind] at he
      split_ifs at he
      · cases he
      · obtain ⟨us, -, -, hus⟩ := h.resolve _ fun row hrow => lookup_of_mem_take hrow
        rw [hus] at he
        cases he

/-- What a page shows of the rows that were read: all of them, or all but the last. -/
theorem mem_objectPage {limit : Nat} {out : List ObjectMetadata} {o : ObjectMetadata}
    (h : o ∈ (objectPage limit out).objects) : o ∈ out := by
  unfold objectPage at h
  split_ifs at h
  · exact List.mem_of_mem_dropLast h
  · exact h

theorem mem_versionPage {limit : Nat} {out : List ListedObjectVersion} {v : ListedObjectVersion}
    (h : v ∈ (versionPage limit out).versions) : v ∈ out := by
  unfold versionPage at h
  split_ifs at h
  · exact List.mem_of_mem_dropLast h
  · exact h

/-- A listed object is a row of `OBJECTS` in the range that is walked. -/
theorem mem_listObjects {request : ListObjectsRequest} {o : ObjectMetadata} (h : o ∈ (listObjects s request).objects) :
    ∃ k : Bytes, s.objects[k]? = some o ∧
      InRange (objectStart request) (prefixSuccessor (objectPrefix request.bucketId request.keyPrefix)) k := by
  unfold listObjects at h
  split_ifs at h
  · exact absurd h List.not_mem_nil
  · obtain ⟨⟨k, o'⟩, hrow, rfl⟩ := List.mem_map.mp (mem_objectPage h)
    exact ⟨k, Table.mem_rowsIn.mp (List.mem_of_mem_take hrow)⟩

/-- A listed version is behind a row of `VERSION_ORDER` in the range that is walked. -/
theorem mem_listObjectVersions (hw : VersionIndex s.versions s.versionOrder s.nullVersions)
    {request : ListObjectVersionsRequest} {page : ObjectVersionPage} (hlist : listObjectVersions s request = .ok page)
    {v : ListedObjectVersion} (h : v ∈ page.versions) :
    s.versions[v.record.versionId.bytes]? = some v.record ∧ v = listed s request.bucketId v.record ∧
      ∃ start, versionStart s request = .ok start ∧
        InRange start (prefixSuccessor (objectPrefix request.bucketId request.keyPrefix))
          (versionOrderKey v.record) := by
  unfold listObjectVersions at hlist
  split_ifs at hlist
  · cases hlist
    exact absurd h List.not_mem_nil
  · cases hstart : versionStart s request with
    | error e =>
      rw [hstart] at hlist
      cases hlist
    | ok start =>
      obtain ⟨rs, hrows, hrs, hout⟩ := hw.resolve request.bucketId
        ((s.versionOrder.rowsIn start (prefixSuccessor (objectPrefix request.bucketId request.keyPrefix))).take
          (request.limit + 1)) fun row hrow => lookup_of_mem_take hrow
      rw [hstart] at hlist
      simp only [bind, Except.bind] at hlist hout
      rw [hout] at hlist
      cases hlist
      obtain ⟨r, hr, rfl⟩ := List.mem_map.mp (mem_versionPage h)
      refine ⟨hrs r hr, rfl, start, rfl, ?_⟩
      have hrow : versionRow r ∈ s.versionOrder.rowsIn start
          (prefixSuccessor (objectPrefix request.bucketId request.keyPrefix)) :=
        List.mem_of_mem_take (hrows ▸ List.mem_map_of_mem hr)
      exact (Table.mem_rowsIn.mp hrow).2

end Resolve

/-! ## Exactness of the indexes -/

section Exact

/-- The version is the only null version of the key. -/
def IsNullVersion (s : Catalog) (bucket : BucketId) (key : ObjectKey) (v : VersionId) : Prop :=
  ∃ r : ObjectVersionRecord, s.versions[v.bytes]? = some r ∧ r.matchesKey bucket key ∧ r.isNull = true ∧
    ∀ (k : Bytes) (r' : ObjectVersionRecord), s.versions[k]? = some r' → r'.matchesKey bucket key →
      r'.isNull = true → r' = r

/-- What the redundant tables owe `VERSIONS`, `BUCKETS` and `MULTIPART`. -/
structure IndexesExact (s : Catalog) : Prop where
  version : ∀ (k : Bytes) (r : ObjectVersionRecord), s.versions[k]? = some r → k = r.versionId.bytes
  order : ∀ k id : Bytes, s.versionOrder[k]? = some id ↔
    ∃ r : ObjectVersionRecord, s.versions[id]? = some r ∧ k = versionOrderKey r
  order_once : ∀ k k' id : Bytes, s.versionOrder[k]? = some id → s.versionOrder[k']? = some id → k = k'
  null : ∀ (bucket : BucketId) (key : ObjectKey) (v : VersionId),
    s.nullVersions[objectKey bucket key]? = some v.bytes ↔ IsNullVersion s bucket key v
  null_row : ∀ k id : Bytes, s.nullVersions[k]? = some id →
    ∃ (bucket : BucketId) (key : ObjectKey) (v : VersionId), k = objectKey bucket key ∧ id = v.bytes
  object : ∀ (k : Bytes) (m : ObjectMetadata), s.objects[k]? = some m → k = objectKey m.bucketId m.key ∧
    ∃ isNull, s.versions[m.versionId.bytes]? = some (.object m isNull)
  marker : ∀ (k : Bytes) (m : DeleteMarker), s.markers[k]? = some m → k = objectKey m.bucketId m.key ∧
    ∃ isNull, s.versions[m.versionId.bytes]? = some (.deleteMarker m isNull)
  exclusive : ∀ k : Bytes, s.objects[k]? = none ∨ s.markers[k]? = none
  bucket : ∀ (k : Bytes) (b : Bucket), s.buckets[k]? = some b →
    k = bucketKey b.id ∧ s.bucketNames[b.name.value]? = some b
  name : ∀ (n : String) (b : Bucket), s.bucketNames[n]? = some b →
    n = b.name.value ∧ s.buckets[bucketKey b.id]? = some b
  upload : ∀ (k : Bytes) (u : MultipartUpload), s.multipart[k]? = some u → k = u.id.bytes
  uploadOrder : ∀ k id : Bytes, s.multipartOrder[k]? = some id ↔
    ∃ u : MultipartUpload, s.multipart[id]? = some u ∧ k = multipartOrderKey u

theorem VersionIndex.isNullVersion (h : VersionIndex s.versions s.versionOrder s.nullVersions)
    {bucket : BucketId} {key : ObjectKey} {v : VersionId} :
    s.nullVersions[objectKey bucket key]? = some v.bytes ↔ IsNullVersion s bucket key v := by
  rw [h.null_iff]
  constructor
  · rintro ⟨r, hr, hn, hk⟩
    obtain ⟨rfl, rfl⟩ := objectKey_inj hk
    refine ⟨r, hr, ⟨rfl, rfl⟩, hn, ?_⟩
    rintro k r' hr' ⟨hb, hkey⟩ hn'
    exact h.null_unique hr hr' hn hn' hb hkey
  · rintro ⟨r, hr, ⟨rfl, rfl⟩, hn, -⟩
    exact ⟨r, hr, hn, rfl⟩

theorem WF.indexesExact (h : WF s) : IndexesExact s where
  version := h.index.key
  order := h.index.order_iff
  order_once := by
    intro k k' id hk hk'
    obtain ⟨r, hr, rfl⟩ := (h.index.order_iff k id).mp hk
    obtain ⟨r', hr', rfl⟩ := (h.index.order_iff k' id).mp hk'
    rw [hr, Option.some.injEq] at hr'
    rw [hr']
  null _ _ _ := h.index.isNullVersion
  null_row := by
    intro k id hk
    obtain ⟨r, hr, -, rfl⟩ := (h.index.null_iff k id).mp hk
    exact ⟨r.bucketId, r.key, r.versionId, rfl, h.index.key id r hr⟩
  object := h.pointers.object
  marker := h.pointers.marker
  exclusive := h.pointers.exclusive
  bucket := h.buckets.bucket
  name := h.buckets.name
  upload := h.uploads.key
  uploadOrder := h.uploads.order_iff

/-- In every run of commands with fresh version identifiers the indexes are exact, and neither a command
nor a listing ends with the error for an index row that resolves to nothing. -/
theorem indexes_exact (env : Env) (cmds : List MetadataCommand) (hf : FreshVersions cmds) :
    IndexesExact (run env cmds) ∧
    (∀ c operation, ¬ Fails (applyCommandTx env c) (run env cmds) (.refused (inconsistentIndex operation))) ∧
    (∀ request operation, listObjectVersions (run env cmds) request ≠ .error (inconsistentIndex operation)) ∧
    ∀ request operation, listMultipartUploads (run env cmds) request ≠ .error (inconsistentIndex operation) := by
  obtain ⟨hs, -⟩ := sound_run env cmds hf
  refine ⟨hs.wf.indexesExact, ?_, listObjectVersions_ne hs.wf.index, listMultipartUploads_ne hs.wf.uploads⟩
  intro c operation hfail
  exact avoids_applyCommandTx hs c _ hfail rfl

/-- A key whose null version was replaced. -/
theorem indexes_exact_overwrite :
    FreshVersions Sample.overwrite ∧
      IsNullVersion (run Sample.env Sample.overwrite) (.ofNat 1) Sample.key (.ofNat 21) := by
  refine ⟨by decide, ?_⟩
  exact ((indexes_exact Sample.env Sample.overwrite (by decide)).1.null _ _ _).mp (by decide)

end Exact

end RecordStore.Metadata

import RecordStore.Metadata.Tx

/-!
# Metadata.UploadIndex — multipart uploads, their order index and their parts

`UploadIndex` says that `MULTIPART_ORDER` indexes exactly the rows of `MULTIPART` and that every part
belongs to an upload that exists.  It is kept by the four changes the commands make: a new upload, a
change of an upload's state, a part written under an upload, and the removal of an upload with all of
its parts.
-/

namespace RecordStore.Metadata

open RecordStore.Lib RecordStore.Core

/-- The parts of one upload, in part order. -/
def partsOf (parts : Table Bytes UploadedPart) (id : UploadId) : List UploadedPart :=
  (parts.rowsIn id.bytes (prefixSuccessor id.bytes)).map Prod.snd

structure UploadIndex (uploads : Table Bytes MultipartUpload) (order : Table Bytes Bytes)
    (parts : Table Bytes UploadedPart) : Prop where
  key : ∀ (k : Bytes) (u : MultipartUpload), uploads[k]? = some u → k = u.id.bytes
  order_iff : ∀ k id : Bytes, order[k]? = some id ↔
    ∃ u : MultipartUpload, uploads[id]? = some u ∧ k = multipartOrderKey u
  part : ∀ (k : Bytes) (p : UploadedPart), parts[k]? = some p →
    k = partKey p.uploadId p.number ∧ ∃ u, uploads[p.uploadId.bytes]? = some u

namespace UploadIndex

variable {uploads : Table Bytes MultipartUpload} {order : Table Bytes Bytes} {parts : Table Bytes UploadedPart}
  {u : MultipartUpload}

theorem empty : UploadIndex ∅ ∅ ∅ := by
  refine ⟨?_, ?_, ?_⟩
  · intro k u h
    rw [Table.lookup_empty] at h
    cases h
  · intro k id
    simp
  · intro k p h
    rw [Table.lookup_empty] at h
    cases h

/-! ### The parts of an upload -/

theorem mem_partsOf (h : UploadIndex uploads order parts) {id : UploadId} {p : UploadedPart} :
    p ∈ partsOf parts id ↔ parts[partKey id p.number]? = some p ∧ p.uploadId = id := by
  unfold partsOf
  rw [List.mem_map]
  constructor
  · rintro ⟨⟨k, p'⟩, hk, rfl⟩
    obtain ⟨hp, hin⟩ := Table.mem_rowsIn.mp hk
    obtain ⟨rfl, -⟩ := h.part k p' hp
    have hid := inRange_partKey.mp hin
    exact ⟨by rw [← hid]; exact hp, hid⟩
  · rintro ⟨hp, rfl⟩
    exact ⟨(_, p), Table.mem_rowsIn.mpr ⟨hp, inRange_partKey.mpr rfl⟩, rfl⟩

/-- Erasing the listed parts one by one removes exactly the parts of the upload. -/
theorem erase_partsOf (h : UploadIndex uploads order parts) (id : UploadId) :
    (partsOf parts id).foldl (fun t part => t.erase (partKey id part.number)) parts =
      parts.filter fun _ p => decide (p.uploadId ≠ id) := by
  refine Std.ExtTreeMap.ext_getElem? fun k => ?_
  rw [Table.lookup_foldl_erase fun part : UploadedPart => partKey id part.number,
    Std.ExtTreeMap.getElem?_filter']
  cases hk : parts[k]? with
  | none => simp
  | some p =>
    obtain ⟨rfl, -⟩ := h.part k p hk
    by_cases hp : p.uploadId = id
    · subst hp
      have hmem := h.mem_partsOf.mpr ⟨hk, rfl⟩
      rw [if_pos (List.mem_map_of_mem hmem), Option.filter_some]
      simp
    · rw [if_neg, Option.filter_some, if_pos (by simpa using hp)]
      rw [List.mem_map]
      rintro ⟨q, -, hq⟩
      exact hp (partKey_inj hq).1.symm

/-! ### Changes -/

theorem ordered (h : UploadIndex uploads order parts) : Table.Indexes order uploads (fun _ => true) multipartOrderKey :=
  Table.indexes_all.mpr h.order_iff

theorem create (h : UploadIndex uploads order parts) (hnew : uploads[u.id.bytes]? = none) :
    UploadIndex (uploads.insert u.id.bytes u) (order.insert (multipartOrderKey u) u.id.bytes) parts := by
  have hother : ∀ (k : Bytes) (u' : MultipartUpload), uploads[k]? = some u' →
    multipartOrderKey u ≠ multipartOrderKey u' := by
    intro k u' hu' e
    rw [h.key k u' hu', ← multipartOrderKey_inj e, hnew] at hu'
    cases hu'
  refine ⟨fun k u' hu' => ?_, Table.indexes_all.mp (h.ordered.insert hnew fun _ => h.ordered.free hother),
    fun k p hp => ?_⟩
  · rcases Table.of_lookup_insert hu' with ⟨hk, rfl⟩ | ⟨-, hu'⟩
    · exact hk
    · exact h.key k u' hu'
  · obtain ⟨hkey, u', hu'⟩ := h.part k p hp
    refine ⟨hkey, u', ?_⟩
    rw [Table.lookup_insert, if_neg, hu']
    intro e
    rw [e, hnew] at hu'
    cases hu'

/-- Only the state of the upload changes. -/
theorem setState (h : UploadIndex uploads order parts) {id : UploadId} (hu : uploads[id.bytes]? = some u)
    (state : MultipartUploadState) :
    UploadIndex (uploads.insert id.bytes { u with state := state }) order parts := by
  have hid : id.bytes = u.id.bytes := h.key _ _ hu
  refine ⟨?_, ?_, ?_⟩
  · intro k u' hu'
    rcases Table.of_lookup_insert hu' with ⟨hk, rfl⟩ | ⟨-, hu'⟩
    · exact hk.trans hid
    · exact h.key k u' hu'
  · intro k id'
    rw [h.order_iff]
    by_cases hk : id' = id.bytes
    · subst hk
      rw [hu, Table.lookup_insert_self]
      constructor
      · rintro ⟨u', hu', hk⟩
        obtain rfl := Option.some.inj hu'
        exact ⟨_, rfl, hk⟩
      · rintro ⟨u', hu', hk⟩
        obtain rfl := Option.some.inj hu'
        exact ⟨_, rfl, hk⟩
    · rw [Table.lookup_insert, if_neg hk]
  · intro k p hp
    obtain ⟨hkey, u', hu'⟩ := h.part k p hp
    refine ⟨hkey, ?_⟩
    rw [Table.lookup_insert]
    by_cases hk : p.uploadId.bytes = id.bytes
    · rw [if_pos hk]
      exact ⟨_, rfl⟩
    · rw [if_neg hk]
      exact ⟨u', hu'⟩

theorem putPart (h : UploadIndex uploads order parts) {p : UploadedPart}
    (hu : uploads[p.uploadId.bytes]? = some u) :
    UploadIndex uploads order (parts.insert (partKey p.uploadId p.number) p) := by
  refine ⟨h.key, h.order_iff, ?_⟩
  intro k p' hp'
  rcases Table.of_lookup_insert hp' with ⟨hk, rfl⟩ | ⟨-, hp'⟩
  · exact ⟨hk, u, hu⟩
  · exact h.part k p' hp'

theorem remove (h : UploadIndex uploads order parts) {id : UploadId} (hu : uploads[id.bytes]? = some u) :
    UploadIndex (uploads.erase id.bytes) (order.erase (multipartOrderKey u))
      (parts.filter fun _ p => decide (p.uploadId ≠ id)) := by
  refine ⟨fun k u' hu' => h.key k u' (Table.of_lookup_erase hu').2, Table.indexes_all.mp (h.ordered.erase hu),
    fun k p hp => ?_⟩
  rw [Std.ExtTreeMap.getElem?_filter', Option.filter_eq_some_iff] at hp
  obtain ⟨hkey, u', hu'⟩ := h.part k p hp.1
  refine ⟨hkey, u', ?_⟩
  rw [Table.lookup_erase, if_neg, hu']
  intro e
  exact of_decide_eq_true hp.2 (Id.bytes_inj.mp e)

/-- The bucket scan of `has_multipart` finds every upload of the bucket. -/
theorem no_upload_of_scan (h : UploadIndex uploads order parts) {bucket : BucketId}
    (hscan : order.rowsIn (bucketKey bucket) (prefixSuccessor (bucketKey bucket)) = [])
    {k : Bytes} (hu : uploads[k]? = some u) : u.bucketId ≠ bucket := by
  rintro rfl
  have hrow := (h.order_iff (multipartOrderKey u) k).mpr ⟨u, hu, rfl⟩
  have hmem := Table.mem_rowsIn.mpr ⟨hrow, inRange_multipartOrderKey.mpr rfl⟩
  rw [hscan] at hmem
  cases hmem

end UploadIndex

end RecordStore.Metadata

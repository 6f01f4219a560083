import RecordStore.Core.Object

/-!
# Metadata.Keys — the byte keys of the catalog tables

Composite keys are concatenations: a sixteen-byte bucket identifier, the bytes of a logical key, a
zero byte, and an order-carrying tail.  No byte of a logical key is zero, so the zero ends it, and
every component can be read back from the key.
-/

namespace RecordStore.Metadata

open RecordStore.Lib RecordStore.Core

def bucketKey (id : BucketId) : Bytes := id.bytes

/-- Object Lock state is keyed by version alone, like the version record it annotates. -/
def lockKey (version : VersionId) : Bytes := version.bytes

def objectPrefix (bucket : BucketId) (keyPrefix : String) : Bytes := bucket.bytes ++ asBytes keyPrefix

def objectKey (bucket : BucketId) (key : ObjectKey) : Bytes := objectPrefix bucket key.value

def exactVersionPrefix (bucket : BucketId) (key : ObjectKey) : Bytes := objectKey bucket key ++ [0]

/-- Newest first: the creation time is inverted, and the version identifier breaks ties. -/
def versionOrderKey (r : ObjectVersionRecord) : Bytes :=
  let inverted : UInt64 := 0xffffffffffffffff - r.createdAt.clampedMicros
  exactVersionPrefix r.bucketId r.key ++ beBytes 8 inverted.toNat ++ r.versionId.bytes

def multipartOrderKey (u : MultipartUpload) : Bytes :=
  objectKey u.bucketId u.key ++ [0] ++ beBytes 8 u.initiatedAt.clampedMicros.toNat ++ u.id.bytes

def partKey (id : UploadId) (number : PartNumber) : Bytes := id.bytes ++ beBytes 2 number.get.toNat

/-! ## Reading the components back -/

section Components

theorem bucketKey_inj {a b : BucketId} (h : bucketKey a = bucketKey b) : a = b := Id.bytes_inj.mp h

theorem bytes_append_inj {kind : IdKind} {a b : Id kind} {x y : Bytes}
    (h : a.bytes ++ x = b.bytes ++ y) : a = b ∧ x = y := by
  have hl : a.bytes.length = b.bytes.length := by rw [Id.length_bytes, Id.length_bytes]
  obtain ⟨h1, h2⟩ := List.append_inj h hl
  exact ⟨Id.bytes_inj.mp h1, h2⟩

theorem append_bytes_inj {kind : IdKind} {a b : Id kind} {x y : Bytes}
    (h : x ++ a.bytes = y ++ b.bytes) : x = y ∧ a = b := by
  have hl : a.bytes.length = b.bytes.length := by rw [Id.length_bytes, Id.length_bytes]
  obtain ⟨h1, h2⟩ := List.append_inj' h hl
  exact ⟨h1, Id.bytes_inj.mp h2⟩

theorem objectKey_inj {b b' : BucketId} {k k' : ObjectKey} (h : objectKey b k = objectKey b' k') :
    b = b' ∧ k = k' := by
  obtain ⟨hb, hk⟩ := bytes_append_inj h
  exact ⟨hb, ObjectKey.bytes_inj hk⟩

/-- The bytes of a logical key end at the first zero. -/
theorem key_prefix_inj {k k' : ObjectKey} {x : Bytes} (h : k.bytes ++ [0] <+: k'.bytes ++ 0 :: x) :
    k = k' := by
  obtain ⟨y, hy⟩ := h
  have split : ∀ (l l' z z' : Bytes), 0 ∉ l → 0 ∉ l' → l ++ 0 :: z = l' ++ 0 :: z' → l = l' := by
    intro l
    induction l with
    | nil =>
      intro l' z z' _ hl' e
      cases l' with
      | nil => rfl
      | cons c l' =>
        simp only [List.nil_append, List.cons_append, List.cons.injEq] at e
        exact absurd (by rw [← e.1]; exact List.mem_cons_self) hl'
    | cons a l ih =>
      intro l' z z' hl hl' e
      cases l' with
      | nil =>
        simp only [List.nil_append, List.cons_append, List.cons.injEq] at e
        exact absurd (by rw [e.1]; exact List.mem_cons_self) hl
      | cons c l' =>
        simp only [List.cons_append, List.cons.injEq] at e
        rw [List.mem_cons, not_or] at hl hl'
        rw [e.1, ih l' z z' hl.2 hl'.2 e.2]
  have hnz : ∀ q : ObjectKey, (0 : UInt8) ∉ q.bytes := fun q hq => (ObjectKey.byte_ne hq).1 rfl
  refine ObjectKey.bytes_inj (split k.bytes k'.bytes y x (hnz k) (hnz k') ?_)
  rw [← hy, List.append_assoc]
  rfl

/-- A version's order key starts with the prefix of exactly its own key. -/
theorem exactVersionPrefix_prefix {bucket : BucketId} {key : ObjectKey} {r : ObjectVersionRecord} :
    exactVersionPrefix bucket key <+: versionOrderKey r ↔ r.matchesKey bucket key := by
  have shape : ∀ (b : BucketId) (k : ObjectKey) (x : Bytes),
      exactVersionPrefix b k ++ x = b.bytes ++ (k.bytes ++ 0 :: x) := by
    intro b k x
    simp [exactVersionPrefix, objectKey, objectPrefix, ObjectKey.bytes]
  constructor
  · rintro ⟨y, hy⟩
    unfold versionOrderKey at hy
    rw [List.append_assoc _ _ r.versionId.bytes, shape, shape] at hy
    obtain ⟨hb, hk⟩ := bytes_append_inj hy
    have hkey : key = r.key := key_prefix_inj ⟨y, by rw [List.append_assoc]; exact hk⟩
    exact ⟨hb.symm, hkey.symm⟩
  · rintro ⟨rfl, rfl⟩
    unfold versionOrderKey
    rw [List.append_assoc]
    exact List.prefix_append _ _

theorem versionOrderKey_inj {r r' : ObjectVersionRecord} (h : versionOrderKey r = versionOrderKey r') :
    r.versionId = r'.versionId := (append_bytes_inj h).2

theorem multipartOrderKey_inj {u u' : MultipartUpload} (h : multipartOrderKey u = multipartOrderKey u') :
    u.id = u'.id := (append_bytes_inj h).2

theorem multipartOrderKey_eq (u : MultipartUpload) :
    multipartOrderKey u = bucketKey u.bucketId ++
      (u.key.bytes ++ 0 :: (beBytes 8 u.initiatedAt.clampedMicros.toNat ++ u.id.bytes)) := by
  simp [multipartOrderKey, bucketKey, objectKey, objectPrefix, ObjectKey.bytes]

theorem bucketKey_prefix_multipartOrderKey {bucket : BucketId} {u : MultipartUpload} :
    bucketKey bucket <+: multipartOrderKey u ↔ u.bucketId = bucket := by
  rw [multipartOrderKey_eq]
  constructor
  · rintro ⟨y, hy⟩
    exact (bytes_append_inj hy).1.symm
  · rintro rfl
    exact List.prefix_append _ _

theorem partKey_inj {a b : UploadId} {m n : PartNumber} (h : partKey a m = partKey b n) :
    a = b ∧ m = n := by
  obtain ⟨hid, hn⟩ := bytes_append_inj h
  have hv := congrArg beValue hn
  have small : ∀ q : PartNumber, q.get.toNat < 256 ^ 2 := fun q => q.get.toNat_lt
  rw [beValue_beBytes (small m), beValue_beBytes (small n)] at hv
  exact ⟨hid, PartNumber.ext (UInt16.toNat_inj.mp hv)⟩

theorem bytes_prefix_partKey {a b : UploadId} {n : PartNumber} : a.bytes <+: partKey b n ↔ b = a := by
  unfold partKey
  constructor
  · rintro ⟨y, hy⟩
    exact (bytes_append_inj hy).1.symm
  · rintro rfl
    exact List.prefix_append _ _

end Components

/-! ## What the prefix scans reach -/

section Scans

theorem inRange_versionOrderKey {bucket : BucketId} {key : ObjectKey} {r : ObjectVersionRecord} :
    InRange (exactVersionPrefix bucket key) (prefixSuccessor (exactVersionPrefix bucket key))
      (versionOrderKey r) ↔ r.matchesKey bucket key := by
  rw [← exactVersionPrefix_prefix]
  refine ⟨prefix_of_inRange, ?_⟩
  rintro ⟨y, hy⟩
  rw [← hy]
  exact inRange_append (.inl ⟨0, by simp [exactVersionPrefix], by decide⟩)

theorem inRange_multipartOrderKey {bucket : BucketId} {u : MultipartUpload} :
    InRange (bucketKey bucket) (prefixSuccessor (bucketKey bucket)) (multipartOrderKey u) ↔
      u.bucketId = bucket := by
  refine ⟨fun h => bucketKey_prefix_multipartOrderKey.mp (prefix_of_inRange h), ?_⟩
  rintro rfl
  rw [multipartOrderKey_eq]
  refine inRange_append (.inr ?_)
  cases hk : u.key.bytes with
  | nil => simp
  | cons b l =>
    have hb := (ObjectKey.byte_ne (k := u.key) (b := b) (by rw [hk]; exact List.mem_cons_self)).2
    simpa using hb

theorem inRange_partKey {a b : UploadId} {n : PartNumber} :
    InRange a.bytes (prefixSuccessor a.bytes) (partKey b n) ↔ b = a := by
  refine ⟨fun h => bytes_prefix_partKey.mp (prefix_of_inRange h), ?_⟩
  rintro rfl
  refine inRange_append (.inr ?_)
  -- part numbers stop at 10,000, so their high byte is at most 39
  have hle : n.get.toNat ≤ 10000 := n.range.2
  simp only [beBytes, List.head?_cons, ne_eq, Option.some.injEq]
  intro h
  have := congrArg UInt8.toNat h
  simp only [pow_one, UInt8.toNat_ofNat', UInt8.reduceToNat] at this
  omega

end Scans

end RecordStore.Metadata

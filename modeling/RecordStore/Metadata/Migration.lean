import RecordStore.Metadata.Usage

/-!
# Metadata.Migration — opening a catalog of an older schema

`initialize_schema` brings an older catalog to the current schema.  Before schema 3 there are only buckets, current
objects and one byte counter; the version tables, the usage rows and the other counters are built from them.  The
`OBJECTS` rows may be in an encoding without an entity tag, so here, unlike in `Catalog`, they are kept as they are
stored.
-/

namespace RecordStore.Metadata

open RecordStore.Lib RecordStore.Core Tx

/-! ## Stored objects -/

/-- An object of the old encoding: no payload format, durability or entity tag. -/
structure LegacyObjectMetadata where
  id : ObjectId
  bucketId : BucketId
  key : ObjectKey
  versionId : VersionId
  size : UInt64
  checksum : Checksum
  contentType : Option String
  customMetadata : Table String String
  createdAt : DateTime
  modifiedAt : DateTime
  deriving DecidableEq

/-- The bytes of an `OBJECTS` row, by what they encode. -/
inductive ObjectRow where
  | current (metadata : ObjectMetadata)
  | legacy (metadata : LegacyObjectMetadata)
  deriving DecidableEq

/-- `from_slice::<ObjectMetadata>`: the entity tag has no default, so that the old encoding is rejected. -/
def ObjectRow.decode : ObjectRow → Option ObjectMetadata
  | .current metadata => some metadata
  | .legacy _ => none

theorem hexDigit_plain (n : Nat) :
    (hexDigit n).utf8Size = 1 ∧
    (0x21 ≤ (hexDigit n).toNat && (hexDigit n).toNat ≤ 0x7e && hexDigit n != '"') = true := by
  have hall : ∀ n : Fin 16, (hexDigit n).utf8Size = 1 ∧
      (0x21 ≤ (hexDigit n).toNat && (hexDigit n).toNat ≤ 0x7e && hexDigit n != '"') = true := by decide
  rw [← hexDigit_mod]
  exact hall ⟨n % 16, Nat.mod_lt _ (by omega)⟩

/-- A digest of 32 bytes is written with 64 digits, which is an entity tag. -/
theorem validETag_hexEncode {digest : Bytes} (h : digest.length = 32) : validETag (hexEncode digest) = true := by
  have hdigits : ∀ c ∈ hexDigits digest, c.utf8Size = 1 ∧ (0x21 ≤ c.toNat && c.toNat ≤ 0x7e && c != '"') = true := by
    intro c hc
    obtain ⟨b, -, hc⟩ := List.mem_flatMap.mp hc
    simp only [List.mem_cons, List.not_mem_nil, or_false] at hc
    rcases hc with rfl | rfl <;> exact hexDigit_plain _
  have hlength : (hexDigits digest).length = 64 := by simp [hexDigits, List.length_flatMap, h]
  have hsize : ∀ l : List Char, (∀ c ∈ l, c.utf8Size = 1) → String.utf8Len l = l.length := by
    intro l hl
    induction l with
    | nil => rfl
    | cons c l ih =>
      rw [String.utf8Len_cons, hl c List.mem_cons_self, ih fun d hd => hl d (List.mem_cons_of_mem c hd),
        List.length_cons]
  unfold validETag hexEncode
  rw [String.toList_ofList, String.utf8ByteSize_ofList, hsize _ fun c hc => (hdigits c hc).1, hlength]
  have hne : (hexDigits digest).isEmpty = false := by
    rw [List.isEmpty_eq_false_iff_exists_mem]
    exact List.exists_mem_of_length_pos (by omega)
  rw [hne, Bool.and_eq_true, List.all_eq_true]
  exact ⟨by decide, fun c hc => (hdigits c hc).2⟩

/-- `decode_migrating_object`: an old object gets the digest of its checksum as its tag.  The digest of a checksum is
always a tag, so that the error of an invalid checksum does not occur. -/
def decodeMigratingObject : ObjectRow → ObjectMetadata
  | .current metadata => metadata
  | .legacy old =>
    { id := old.id
      bucketId := old.bucketId
      key := old.key
      versionId := old.versionId
      size := old.size
      checksum := old.checksum
      payloadFormat := .plaintext
      durability := .single
      etag := ⟨hexEncode old.checksum.digest, validETag_hexEncode old.checksum.length_digest⟩
      contentType := old.contentType
      customMetadata := old.customMetadata
      createdAt := old.createdAt
      modifiedAt := old.modifiedAt }

/-- A catalog file: the `OBJECTS` rows as stored, and the other tables (`tables.objects` is not used). -/
structure Database where
  objects : Table Bytes ObjectRow
  tables : Catalog

/-- The tables, with the objects `t`. -/
def Catalog.holding (s : Catalog) (t : Table Bytes ObjectMetadata) : Catalog := { s with objects := t }

/-! ## Migration -/

def legacyBytes : String := "bytes"

/-- One turn of the loop over the objects of `migrate_v3`. -/
def migrateObject (env : Env) (metadata : ObjectMetadata) : CatalogTx Unit := do
  modify (Catalog.insertVersion (.object metadata true))
  modify (Catalog.setNull (objectKey metadata.bucketId metadata.key) metadata.versionId)
  let usage ← Tx.read fun s => s.readBucketUsage metadata.bucketId
  let currentObjects ← uncheckedAdd env usage.currentObjects 1
  Tx.ensure (usage.logicalBytes.toNat + metadata.size.toNat < 2 ^ 64) (.refused counterError)
  let versions ← uncheckedAdd env usage.versions 1
  Tx.ensure (usage.versionBytes.toNat + metadata.size.toNat < 2 ^ 64) (.refused counterError)
  modify (Catalog.writeBucketUsage metadata.bucketId
    { usage with
      currentObjects, versions
      logicalBytes := usage.logicalBytes + metadata.size
      versionBytes := usage.versionBytes + metadata.size })

/-- The loop, with the sum of the sizes. -/
def migrateObjects (env : Env) : List ObjectMetadata → UInt64 → CatalogTx UInt64
  | [], total => pure total
  | metadata :: rest, total => do
    migrateObject env metadata
    Tx.ensure (total.toNat + metadata.size.toNat < 2 ^ 64) (.refused counterError)
    migrateObjects env rest (total + metadata.size)

def Catalog.migrateBucket (s : Catalog) (bucket : Bucket) : Catalog :=
  { s with
    buckets := s.buckets.insert (bucketKey bucket.id) bucket
    bucketNames := s.bucketNames.insert bucket.name.value bucket }

def Catalog.migrateUsage (s : Catalog) (bucket : Bucket) : Catalog :=
  if s.readBucketUsage bucket.id = .zero then s.writeBucketUsage bucket.id .zero else s

def migratedCounters (objects buckets : Nat) (bytes : UInt64) (counters : Table String UInt64) : Table String UInt64 :=
  [(objectCount, .ofNat objects), (bucketCount, .ofNat buckets), (logicalBytes, bytes), (versionCount, .ofNat objects),
    (versionBytes, bytes), (physicalBytes, bytes), (multipartBytes, 0)].foldl (fun t c => t.insert c.1 c.2) counters

def migrateV3 (env : Env) (buckets : List Bucket) (objects : List ObjectMetadata) : CatalogTx Unit := do
  modify fun s => buckets.foldl Catalog.migrateBucket s
  let total ← migrateObjects env objects 0
  modify fun s => buckets.foldl Catalog.migrateUsage s
  let legacy ← Tx.read fun s => max (s.readCounter legacyBytes) total
  modify fun s => { s with counters := migratedCounters objects.length buckets.length legacy s.counters }

def schemaTooNew (version : UInt64) : MetadataError :=
  .database "schema compatibility"
    (s!"schema {version} is newer than supported schema {currentSchemaVersion}")

/-- `initialize_schema`.  The migrations to schema 4, 5 and 6 open tables and write no row. -/
def initializeSchema (env : Env) (d : Database) : Except Failure Database :=
  let version := (d.tables.schema["metadata"]?).getD 0
  if currentSchemaVersion < version then .error (.refused (schemaTooNew version))
  else
    let result := if version < 3 then
        commit (migrateV3 env d.tables.buckets.rows (d.objects.rows.map decodeMigratingObject)) d.tables
      else (.ok (), d.tables)
    result.1.map fun _ =>
      if version < currentSchemaVersion then
        { d with tables := { result.2 with schema := result.2.schema.insert "metadata" currentSchemaVersion } }
      else { d with tables := result.2 }

/-! ## What the tables should say -/

/-- The version tables describe the objects, all of them null versions, and the usage rows count them. -/
structure Described (s : Catalog) : Prop where
  index : VersionIndex s.versions s.versionOrder s.nullVersions
  history : s.versions.rows.Perm (s.objects.rows.map (.object · true))
  pointers : Pointers s.versions s.objects s.markers
  usage : ∀ b, UsageExact s b (s.readBucketUsage b)

/-- What a counter should hold. -/
def Counter.recount (s : Catalog) : Counter → Nat
  | .objects => s.objects.countOf fun _ => true
  | .buckets => s.buckets.countOf fun _ => true
  | .logical => s.objects.sumOver (fun _ => true) fun m => m.size.toNat
  | .versions => s.versions.countOf fun _ => true
  | .versionBytes => s.versions.sumOver (fun _ => true) fun r => (sizeOf? r.asObject).toNat
  | .physical => s.versions.sumOver (fun _ => true) fun r => (sizeOf? r.asObject).toNat
  | .multipart => s.parts.sumOver (fun _ => true) fun p => p.size.toNat

/-- Every `OBJECTS` row decodes as a current record, and `t` are the records. -/
def Database.Reads (d : Database) (t : Table Bytes ObjectMetadata) : Prop :=
  ∀ k : Bytes, (d.objects[k]?).map ObjectRow.decode = (t[k]?).map some

/-- The catalog is as the commands keep it. -/
def Database.Exact (d : Database) : Prop :=
  ∃ t, d.Reads t ∧ Described (d.tables.holding t) ∧ ∀ c : Counter,
    countIn d.tables.counters c = c.recount (d.tables.holding t)

/-- A catalog of a schema before 3: buckets and objects under their keys, distinct versions, any counters. -/
structure Unmigrated (d : Database) : Prop where
  version : (d.tables.schema["metadata"]?).getD 0 < 3
  bucket : ∀ (k : Bytes) (b : Bucket), d.tables.buckets[k]? = some b → k = bucketKey b.id
  object : ∀ (k : Bytes) (row : ObjectRow), d.objects[k]? = some row →
    k = objectKey (decodeMigratingObject row).bucketId (decodeMigratingObject row).key
  distinct : ∀ (k k' : Bytes) (row row' : ObjectRow), d.objects[k]? = some row → d.objects[k']? = some row' →
    (decodeMigratingObject row).versionId = (decodeMigratingObject row').versionId → k = k'
  empty : d.tables.markers = ∅ ∧ d.tables.versions = ∅ ∧ d.tables.versionOrder = ∅ ∧ d.tables.nullVersions = ∅ ∧
    d.tables.parts = ∅ ∧ d.tables.bucketUsage = ∅
  -- the rows are collected in vectors, whose lengths are machine words
  fits : d.tables.buckets.rows.length < 2 ^ 64 ∧ d.objects.rows.length < 2 ^ 64

/-! ## Fresh rows -/

section Fresh

variable {K V : Type} [Ord K] [Std.TransOrd K] [Std.LawfulEqOrd K] [DecidableEq K] {t : Table K V} {k : K}

theorem rows_insert_fresh (h : t[k]? = none) (v : V) : (Table.rows (t.insert k v)).Perm (v :: t.rows) := by
  have hperm := (Table.toList_insert_perm t k v).map Prod.snd
  rwa [Table.erase_of_none h] at hperm

omit [DecidableEq K] in
theorem sumOver_insert_fresh (h : t[k]? = none) (v : V) (p : V → Bool) (f : V → Nat) :
    Table.sumOver (t.insert k v) p f = t.sumOver p f + if p v then f v else 0 := by
  have hsum := Table.sumOver_insert t k v p f
  rw [h] at hsum
  exact hsum

omit [DecidableEq K] in
theorem countOf_insert_fresh (h : t[k]? = none) (v : V) (p : V → Bool) :
    Table.countOf (t.insert k v) p = t.countOf p + if p v then 1 else 0 := by
  rw [Table.countOf_eq_sumOver, Table.countOf_eq_sumOver]
  exact sumOver_insert_fresh h v p _

end Fresh

/-! ## One object -/

variable {env : Env} {s s' : Catalog} {m : ObjectMetadata}

/-- The totals of a bucket with one more object. -/
def BucketUsage.counting (u : BucketUsage) (m : ObjectMetadata) : BucketUsage :=
  { u with
    currentObjects := u.currentObjects + 1
    logicalBytes := u.logicalBytes + m.size
    versions := u.versions + 1
    versionBytes := u.versionBytes + m.size }

/-- What one turn leaves. -/
def Catalog.migrated (s : Catalog) (m : ObjectMetadata) : Catalog :=
  { s with
    versions := s.versions.insert m.versionId.bytes (.object m true)
    versionOrder := s.versionOrder.insert (versionOrderKey (.object m true)) m.versionId.bytes
    nullVersions := s.nullVersions.insert (objectKey m.bucketId m.key) m.versionId.bytes
    bucketUsage := s.bucketUsage.insert (bucketKey m.bucketId) ((s.readBucketUsage m.bucketId).counting m) }

/-- The object's bucket has room for it. -/
structure Fits (s : Catalog) (m : ObjectMetadata) : Prop where
  objects : (s.readBucketUsage m.bucketId).currentObjects.toNat + 1 < 2 ^ 64
  logical : (s.readBucketUsage m.bucketId).logicalBytes.toNat + m.size.toNat < 2 ^ 64
  versions : (s.readBucketUsage m.bucketId).versions.toNat + 1 < 2 ^ 64
  versionBytes : (s.readBucketUsage m.bucketId).versionBytes.toNat + m.size.toNat < 2 ^ 64

theorem uncheckedAdd_fits {a b : UInt64} (h : a.toNat + b.toNat < 2 ^ 64) :
    Returns (uncheckedAdd env a b) s (a + b) s := by
  rw [uncheckedAdd, returns_bind]
  exact ⟨(), s, returns_ensure.mpr ⟨fun _ => h, rfl⟩, returns_pure.mpr ⟨rfl, rfl⟩⟩

theorem toNat_add_fits {a b : UInt64} (h : a.toNat + b.toNat < 2 ^ 64) : (a + b).toNat = a.toNat + b.toNat :=
  (UInt64.toNat_add a b).trans (Nat.mod_eq_of_lt h)

theorem migrateObject_returns (h : Fits s m) : Returns (migrateObject env m) s () (s.migrated m) := by
  simp only [migrateObject, returns_bind, returns_modify, returns_read, returns_ensure]
  exact ⟨(), _, rfl, (), _, rfl, _, _, ⟨rfl, rfl⟩, _, _, uncheckedAdd_fits h.objects, (), _, ⟨h.logical, rfl⟩, _, _,
    uncheckedAdd_fits h.versions, (), _, ⟨h.versionBytes, rfl⟩, rfl⟩

theorem readBucketUsage_migrated (s : Catalog) (m : ObjectMetadata) (b : BucketId) :
    (s.migrated m).readBucketUsage b =
      if b = m.bucketId then (s.readBucketUsage m.bucketId).counting m else s.readBucketUsage b :=
  readBucketUsage_insert s m.bucketId b _

/-- Objects that were not there yet, of versions that were not there yet. -/
theorem Described.migrated {t : Table Bytes ObjectMetadata} (h : Described (s.holding t)) (hfits : Fits s m)
    (ht : t[objectKey m.bucketId m.key]? = none) (hv : s.versions[m.versionId.bytes]? = none) :
    Described ((s.migrated m).holding (t.insert (objectKey m.bucketId m.key) m)) := by
  have hmem : ∀ (k : Bytes) (r : ObjectVersionRecord), s.versions[k]? = some r → ∃ m', r = .object m' true ∧
      t[objectKey m'.bucketId m'.key]? = some m' := by
    intro k r hr
    obtain ⟨m', hm', rfl⟩ := List.mem_map.mp (h.history.mem_iff.mp (Table.mem_rows.mpr ⟨k, hr⟩))
    obtain ⟨k', hk'⟩ := Table.mem_rows.mp hm'
    exact ⟨m', rfl, (h.pointers.object k' m' hk').1 ▸ hk'⟩
  -- the key has no null version yet: it would be an object under that key
  have hnull : s.nullVersions[objectKey m.bucketId m.key]? = none := by
    rw [Option.eq_none_iff_forall_ne_some]
    intro id hid
    obtain ⟨r, hr, -, hk⟩ := (h.index.null_iff _ _).mp hid
    obtain ⟨m', rfl, hm'⟩ := hmem id r hr
    rw [hk] at ht
    exact absurd (ht.symm.trans hm') nofun
  have hindex : VersionIndex (s.migrated m).versions (s.migrated m).versionOrder (s.migrated m).nullVersions :=
    h.index.insert (r := .object m true) hv fun _ => hnull
  have hmarkers : ∀ k : Bytes, s.markers[k]? = none := by
    intro k
    rw [Option.eq_none_iff_forall_ne_some]
    intro d hd
    obtain ⟨-, n, hn⟩ := h.pointers.marker k d hd
    obtain ⟨m', hm', -⟩ := hmem _ _ hn
    cases hm'
  refine ⟨hindex, ?_, ⟨?_, ?_, fun k => .inr (hmarkers k)⟩, fun b => ?_⟩
  · have hobjects := (rows_insert_fresh ht m).map (ObjectVersionRecord.object · true)
    exact (rows_insert_fresh hv _).trans ((h.history.cons _).trans hobjects.symm)
  · intro k m' hm'
    rw [Catalog.holding] at hm'
    rcases Table.of_lookup_insert hm' with ⟨hk, rfl⟩ | ⟨-, hm'⟩
    · exact ⟨hk, true, Table.lookup_insert_self _ _ _⟩
    · obtain ⟨hkey, n, hn⟩ := h.pointers.object k m' hm'
      have hne : m'.versionId.bytes ≠ m.versionId.bytes := by
        intro heq
        rw [heq] at hn
        exact absurd (hv.symm.trans hn) nofun
      exact ⟨hkey, n, (Table.lookup_insert _ _ _ _).trans ((if_neg hne).trans hn)⟩
  · intro k d hd
    exact absurd ((hmarkers k).symm.trans hd) nofun
  · have hb := h.usage b
    have hobjects := countOf_insert_fresh ht m fun m' => decide (m'.bucketId = b)
    have hlogical := sumOver_insert_fresh ht m (fun m' => decide (m'.bucketId = b)) fun m' => m'.size.toNat
    have hversions := countOf_insert_fresh hv (.object m true) fun r => decide (r.bucketId = b)
    have hbytes := sumOver_insert_fresh hv (.object m true)
      (fun r => decide (r.bucketId = b)) fun r => (sizeOf? r.asObject).toNat
    have husage : ((s.migrated m).holding (t.insert (objectKey m.bucketId m.key) m)).readBucketUsage b = _ :=
      readBucketUsage_migrated s m b
    rw [husage]
    by_cases hbm : b = m.bucketId
    · subst hbm
      rw [if_pos rfl]
      simp only [ObjectVersionRecord.bucketId, decide_true, if_true] at hobjects hlogical hversions hbytes
      exact ⟨(toNat_add_fits hfits.objects).trans ((congrArg (· + 1) hb.currentObjects).trans hobjects.symm),
        (toNat_add_fits hfits.logical).trans ((congrArg (· + m.size.toNat) hb.logicalBytes).trans hlogical.symm),
        (toNat_add_fits hfits.versions).trans ((congrArg (· + 1) hb.versions).trans hversions.symm),
        (toNat_add_fits hfits.versionBytes).trans ((congrArg (· + m.size.toNat) hb.versionBytes).trans hbytes.symm),
        hb.multipartBytes⟩
    · rw [if_neg hbm]
      have hother : decide (m.bucketId = b) ≠ true := by simpa using Ne.symm hbm
      exact ⟨hb.currentObjects.trans (hobjects.trans (congrArg (_ + ·) (if_neg hother))).symm,
        hb.logicalBytes.trans (hlogical.trans (congrArg (_ + ·) (if_neg hother))).symm,
        hb.versions.trans (hversions.trans (congrArg (_ + ·) (if_neg hother))).symm,
        hb.versionBytes.trans (hbytes.trans (congrArg (_ + ·) (if_neg hother))).symm, hb.multipartBytes⟩

/-! ## The loop -/

theorem sumOver_le {K V : Type} [Ord K] [Std.TransOrd K] (t : Table K V) (p : V → Bool) (f : V → Nat) :
    t.sumOver p f ≤ t.sumOver (fun _ => true) f := by
  rw [Table.sumOver_eq_sum_share, Table.sumOver_eq_sum_share]
  refine List.sum_le_sum fun r _ => ?_
  simp only [Table.share, if_true]
  split_ifs
  · exact le_rfl
  · exact Nat.zero_le _

theorem countOf_le {K V : Type} [Ord K] [Std.TransOrd K] (t : Table K V) (p : V → Bool) : t.countOf p ≤ t.rows.length :=
  List.length_filter_le p t.rows

/-- The sizes of all objects. -/
def totalBytes (t : Table Bytes ObjectMetadata) : Nat := t.sumOver (fun _ => true) fun m => m.size.toNat

theorem Described.bytes (h : Described s) :
    s.versions.sumOver (fun _ => true) (fun r => (sizeOf? r.asObject).toNat) = totalBytes s.objects := by
  unfold totalBytes Table.sumOver
  rw [List.filter_true, List.filter_true, (h.history.map _).sum_eq, List.map_map]
  rfl

theorem Described.count (h : Described s) : s.versions.rows.length = s.objects.rows.length :=
  h.history.length_eq.trans (List.length_map _)

theorem Described.fits {t : Table Bytes ObjectMetadata} (h : Described (s.holding t))
    (hcount : t.rows.length + 1 < 2 ^ 64) (hsum : totalBytes t + m.size.toNat < 2 ^ 64) : Fits s m := by
  have hu := h.usage m.bucketId
  have hread : (s.holding t).readBucketUsage m.bucketId = s.readBucketUsage m.bucketId := rfl
  rw [hread] at hu
  have hobjects := hu.currentObjects.trans_le (countOf_le _ _)
  have hversions := (hu.versions.trans_le (countOf_le _ _)).trans_eq h.count
  have hlogical := hu.logicalBytes.trans_le (sumOver_le _ _ _)
  have hbytes := (hu.versionBytes.trans_le (sumOver_le _ _ _)).trans_eq h.bytes
  exact ⟨(Nat.add_le_add_right hobjects 1).trans_lt hcount, (Nat.add_le_add_right hlogical _).trans_lt hsum,
    (Nat.add_le_add_right hversions 1).trans_lt hcount, (Nat.add_le_add_right hbytes _).trans_lt hsum⟩

/-- The tables the loop writes; the rest stays. -/
def Rewrites (s s' : Catalog) : Prop := ∃ versions order nulls usage,
  s' = { s with versions := versions, versionOrder := order, nullVersions := nulls, bucketUsage := usage }

theorem Rewrites.trans {s₁ : Catalog} (h : Rewrites s s₁) (h' : Rewrites s₁ s') : Rewrites s s' := by
  obtain ⟨_, _, _, _, rfl⟩ := h
  obtain ⟨_, _, _, _, rfl⟩ := h'
  exact ⟨_, _, _, _, rfl⟩

/-- The loop finishes if the sizes add up to a machine word, and leaves the tables described. -/
theorem migrateObjects_returns {l : List (Bytes × ObjectMetadata)} {t : Table Bytes ObjectMetadata} {total : UInt64}
    (h : Described (s.holding t)) (htotal : total.toNat = totalBytes t)
    (hkeys : (l.map Prod.fst).Nodup) (hids : (l.map fun r => r.2.versionId).Nodup)
    (hrow : ∀ r ∈ l, r.1 = objectKey r.2.bucketId r.2.key ∧ t[r.1]? = none ∧ s.versions[r.2.versionId.bytes]? = none)
    (hcount : t.rows.length + l.length < 2 ^ 64) (hsum : totalBytes t + (l.map fun r => r.2.size.toNat).sum < 2 ^ 64) :
    ∃ total' s', Returns (migrateObjects env (l.map Prod.snd) total) s total' s' ∧ Rewrites s s' ∧
      Described (s'.holding (l.foldl (fun t r => t.insert r.1 r.2) t)) ∧
      total'.toNat = totalBytes (l.foldl (fun t r => t.insert r.1 r.2) t) := by
  induction l generalizing s t total with
  | nil => exact ⟨total, s, returns_pure.mpr ⟨rfl, rfl⟩, ⟨_, _, _, _, rfl⟩, h, htotal⟩
  | cons r l ih =>
    obtain ⟨k, m⟩ := r
    rw [List.map_cons, List.nodup_cons] at hkeys hids
    rw [List.length_cons] at hcount
    rw [List.map_cons, List.sum_cons] at hsum
    obtain ⟨hk, ht, hv⟩ := hrow (k, m) List.mem_cons_self
    simp only at hk ht hv hkeys hids hsum
    subst hk
    have hfits : Fits s m := h.fits (by omega) (by omega)
    have hlen : (Table.rows (t.insert (objectKey m.bucketId m.key) m)).length = t.rows.length + 1 :=
      (rows_insert_fresh ht m).length_eq
    have hbytes : totalBytes (t.insert (objectKey m.bucketId m.key) m) = totalBytes t + m.size.toNat :=
      sumOver_insert_fresh ht m _ _
    have hadd : total.toNat + m.size.toNat < 2 ^ 64 := by omega
    -- the rows to come are still fresh
    have hrest : ∀ r ∈ l, r.1 = objectKey r.2.bucketId r.2.key ∧
      (t.insert (objectKey m.bucketId m.key) m)[r.1]? = none ∧
        (s.migrated m).versions[r.2.versionId.bytes]? = none := by
      intro r hr
      obtain ⟨hk', ht', hv'⟩ := hrow r (List.mem_cons_of_mem _ hr)
      refine ⟨hk', ?_, ?_⟩
      · refine (Table.lookup_insert _ _ _ _).trans ((if_neg fun he => hkeys.1 ?_).trans ht')
        rw [← he]
        exact List.mem_map_of_mem hr
      · refine (Table.lookup_insert _ _ _ _).trans ((if_neg fun he => hids.1 ?_).trans hv')
        rw [← Id.bytes_inj.mp he]
        exact List.mem_map_of_mem hr
    obtain ⟨total', s', hret, hrw, hd, htot⟩ := ih (h.migrated hfits ht hv)
      ((toNat_add_fits hadd).trans (by omega)) hkeys.2 hids.2
      hrest (by omega) (by omega)
    refine ⟨total', s', ?_, Rewrites.trans ⟨_, _, _, _, rfl⟩ hrw, hd, htot⟩
    rw [List.map_cons, migrateObjects, returns_bind]
    exact ⟨(), s.migrated m, migrateObject_returns hfits,
      returns_bind.mpr ⟨(), _, returns_ensure.mpr ⟨hadd, rfl⟩, hret⟩⟩

/-- Nor does it finish otherwise. -/
theorem sum_lt_of_migrateObjects {l : List ObjectMetadata} {total total' : UInt64}
    (h : Returns (migrateObjects env l total) s total' s') :
    total.toNat + (l.map fun m => m.size.toNat).sum < 2 ^ 64 := by
  induction l generalizing s total with
  | nil => exact total.toNat_lt
  | cons m l ih =>
    rw [migrateObjects, returns_bind] at h
    obtain ⟨_, s₁, -, h⟩ := h
    obtain ⟨_, s₂, hensure, h⟩ := returns_bind.mp h
    have hsum := ih h
    rw [toNat_add_fits (returns_ensure.mp hensure).1] at hsum
    rw [List.map_cons, List.sum_cons]
    omega

/-! ## Buckets -/

theorem migrateBuckets_eq {l : List Bucket} (h : ∀ b ∈ l, s.buckets[bucketKey b.id]? = some b) :
    ∃ names, l.foldl Catalog.migrateBucket s = { s with bucketNames := names } := by
  induction l generalizing s with
  | nil => exact ⟨_, rfl⟩
  | cons b l ih =>
    have hsame : s.buckets.insert (bucketKey b.id) b = s.buckets := by
      refine Std.ExtTreeMap.ext_getElem? fun k => ?_
      rw [Table.lookup_insert]
      split_ifs with hk
      · rw [hk, h b List.mem_cons_self]
      · rfl
    have hfirst : s.migrateBucket b = { s with bucketNames := s.bucketNames.insert b.name.value b } := by
      rw [Catalog.migrateBucket, hsame]
    rw [List.foldl_cons, hfirst]
    exact ih (s := { s with bucketNames := s.bucketNames.insert b.name.value b }) fun b' hb' =>
      h b' (List.mem_cons_of_mem b hb')

theorem migrateUsages_eq (l : List Bucket) (s : Catalog) : ∃ usage,
    l.foldl Catalog.migrateUsage s = { s with bucketUsage := usage } ∧
    ∀ b, ({ s with bucketUsage := usage } : Catalog).readBucketUsage b = s.readBucketUsage b := by
  induction l generalizing s with
  | nil => exact ⟨_, rfl, fun _ => rfl⟩
  | cons b l ih =>
    by_cases hzero : s.readBucketUsage b.id = .zero
    · obtain ⟨usage, hfold, hread⟩ := ih (s.writeBucketUsage b.id .zero)
      refine ⟨usage, ?_, fun b' => (hread b').trans ?_⟩
      · rw [List.foldl_cons, Catalog.migrateUsage, if_pos hzero]
        exact hfold
      · refine (readBucketUsage_insert s b.id b' .zero).trans ?_
        split_ifs with hb
        · rw [hb, hzero]
        · rfl
    · obtain ⟨usage, hfold, hread⟩ := ih s
      refine ⟨usage, ?_, hread⟩
      rw [List.foldl_cons, Catalog.migrateUsage, if_neg hzero]
      exact hfold

/-! ## The whole migration -/

/-- The objects the rows stand for, whatever their encoding. -/
def Database.denoted (d : Database) : Table Bytes ObjectMetadata := d.objects.map fun _ row => decodeMigratingObject row

variable {d d' : Database}

theorem denoted_rows (d : Database) : d.objects.rows.map decodeMigratingObject = d.denoted.toList.map Prod.snd := by
  unfold Database.denoted Table.rows
  rw [Std.ExtTreeMap.toList_map, List.map_map, List.map_map]
  rfl

theorem lookup_denoted (d : Database) (k : Bytes) : d.denoted[k]? = (d.objects[k]?).map decodeMigratingObject :=
  Std.ExtTreeMap.getElem?_map

theorem totalBytes_eq (t : Table Bytes ObjectMetadata) : totalBytes t = (t.toList.map fun r => r.2.size.toNat).sum := by
  unfold totalBytes
  rw [Table.sumOver_eq_sum_share]
  rfl

/-- The seven counters are written, with one value for the three byte counters. -/
theorem countIn_migratedCounters (objects buckets : Nat) (bytes : UInt64) (t : Table String UInt64) (c : Counter) :
    countIn (migratedCounters objects buckets bytes t) c = match c with
      | .objects | .versions => (UInt64.ofNat objects).toNat
      | .buckets => (UInt64.ofNat buckets).toNat
      | .logical | .versionBytes | .physical => bytes.toNat
      | .multipart => 0 := by
  have hname : ∀ c c' : Counter, (c.name = c'.name) = (c = c') := fun c c' => propext ⟨Counter.name_inj, congrArg _⟩
  have hcounters : migratedCounters objects buckets bytes t =
    (((((((t.insert Counter.objects.name (.ofNat objects)).insert
      Counter.buckets.name (.ofNat buckets)).insert Counter.logical.name bytes).insert Counter.versions.name
        (.ofNat objects)).insert
      Counter.versionBytes.name bytes).insert Counter.physical.name bytes).insert Counter.multipart.name 0) := rfl
  rw [hcounters]
  simp only [countIn_insert, hname]
  cases c <;> simp

/-- What the migration leaves of a catalog whose sizes add up to a machine word. -/
structure Migrates (d : Database) (s' : Catalog) : Prop where
  described : Described (s'.holding d.denoted)
  buckets : s'.buckets = d.tables.buckets
  parts : s'.parts = d.tables.parts
  objects : countIn s'.counters .objects = d.denoted.rows.length ∧ countIn s'.counters .versions = d.denoted.rows.length
  bucketCount : countIn s'.counters .buckets = d.tables.buckets.rows.length
  bytes : ∀ c : Counter, c = .logical ∨ c = .versionBytes ∨ c = .physical →
    countIn s'.counters c = max (d.tables.readCounter legacyBytes).toNat (totalBytes d.denoted)
  multipart : countIn s'.counters .multipart = 0

theorem toNat_max (a b : UInt64) : (max a b).toNat = max a.toNat b.toNat := by
  rw [UInt64.max_def, Nat.max_def]
  simp only [UInt64.le_iff_toNat_le]
  split_ifs <;> rfl

theorem Unmigrated.described (h : Unmigrated d) (names : Table String Bucket) :
    Described (({ d.tables with bucketNames := names } : Catalog).holding ∅) := by
  obtain ⟨hmarkers, hversions, horder, hnulls, hparts, husage⟩ := h.empty
  unfold Catalog.holding
  rw [hmarkers, hversions, horder, hnulls, hparts, husage]
  refine ⟨.empty, .refl _, .empty, fun b => ?_⟩
  have hread : (Catalog.readBucketUsage { d.tables with
      bucketNames := names, objects := ∅, markers := ∅, versions := ∅, versionOrder := ∅, nullVersions := ∅, parts := ∅
      bucketUsage := ∅ } b) = .zero := by
    unfold Catalog.readBucketUsage
    rw [Table.lookup_empty]
    rfl
  rw [hread]
  exact ⟨rfl, rfl, rfl, rfl, rfl⟩

/-- The usage rows may be written again with the same contents, the counters and the schema in any way. -/
theorem Described.rewrite {t : Table Bytes ObjectMetadata} (h : Described (s.holding t))
    {usage : Table Bytes BucketUsage}
    (hread : ∀ b, ({ s with bucketUsage := usage } : Catalog).readBucketUsage b = s.readBucketUsage b)
    (counters schema : Table String UInt64) :
    Described (({ s with bucketUsage := usage, counters := counters, schema := schema } : Catalog).holding t) := by
  refine ⟨h.index, h.history, h.pointers, fun b => ?_⟩
  have hb := h.usage b
  rw [show (s.holding t).readBucketUsage b = s.readBucketUsage b from rfl, ← hread b] at hb
  exact ⟨hb.currentObjects, hb.logicalBytes, hb.versions, hb.versionBytes, hb.multipartBytes⟩

theorem migrateV3_returns (h : Unmigrated d) (hsum : totalBytes d.denoted < 2 ^ 64) :
    ∃ s', Returns (migrateV3 env d.tables.buckets.rows (d.objects.rows.map decodeMigratingObject)) d.tables () s' ∧
      Migrates d s' := by
  have hbuckets : ∀ b ∈ d.tables.buckets.rows, d.tables.buckets[bucketKey b.id]? = some b := by
    intro b hb
    obtain ⟨k, hk⟩ := Table.mem_rows.mp hb
    exact h.bucket k b hk ▸ hk
  have hrow : ∀ r ∈ d.denoted.toList, ∃ row, d.objects[r.1]? = some row ∧ r.2 = decodeMigratingObject row := by
    intro r hr
    have hlookup := Std.ExtTreeMap.mem_toList_iff_getElem?_eq_some.mp hr
    rw [lookup_denoted] at hlookup
    obtain ⟨row, hrow, hr⟩ := Option.map_eq_some_iff.mp hlookup
    exact ⟨row, hrow, hr.symm⟩
  have hkeys : (d.denoted.toList.map Prod.fst).Nodup := by
    refine List.pairwise_map.mpr ((Std.ExtTreeMap.distinct_keys_toList (t := d.denoted)).imp ?_)
    intro a b hab heq
    exact hab (by rw [heq]; exact Std.ReflCmp.compare_self)
  have hids : (d.denoted.toList.map fun r => r.2.versionId).Nodup := by
    refine List.pairwise_map.mpr ((Std.ExtTreeMap.distinct_keys_toList (t := d.denoted)).imp_of_mem ?_)
    intro a b ha hb hab heq
    obtain ⟨row, hrow₁, ha'⟩ := hrow a ha
    obtain ⟨row', hrow₂, hb'⟩ := hrow b hb
    rw [ha', hb'] at heq
    exact hab (by rw [h.distinct _ _ _ _ hrow₁ hrow₂ heq]; exact Std.ReflCmp.compare_self)
  have hlength : d.denoted.toList.length = d.objects.rows.length := by
    have hmap := congrArg List.length (denoted_rows d)
    rw [List.length_map, List.length_map] at hmap
    exact hmap.symm
  obtain ⟨names, hnames⟩ := migrateBuckets_eq hbuckets
  have hfresh : ∀ r ∈ d.denoted.toList, r.1 = objectKey r.2.bucketId r.2.key ∧
      (∅ : Table Bytes ObjectMetadata)[r.1]? = none ∧ d.tables.versions[r.2.versionId.bytes]? = none := by
    intro r hr
    obtain ⟨row, hrow, hr'⟩ := hrow r hr
    refine ⟨hr' ▸ h.object r.1 row hrow, Table.lookup_empty _, ?_⟩
    rw [h.empty.2.1, Table.lookup_empty]
  have hcount : (∅ : Table Bytes ObjectMetadata).rows.length + d.denoted.toList.length < 2 ^ 64 := by
    rw [hlength]
    exact (Nat.zero_add _).trans_lt h.fits.2
  have hloop : ∃ total s₁, Returns (migrateObjects env (d.denoted.toList.map Prod.snd) 0)
    { d.tables with bucketNames := names } total s₁ ∧
      Rewrites { d.tables with bucketNames := names } s₁ ∧ _ :=
    migrateObjects_returns (h.described names) rfl hkeys hids hfresh hcount
      (by rw [← totalBytes_eq]; exact (Nat.zero_add _).trans_lt hsum)
  obtain ⟨total, s₁, hret, hrw, hd, htotal⟩ := hloop
  rw [Table.foldl_insert_toList] at hd htotal
  obtain ⟨usage, husage, hread⟩ := migrateUsages_eq d.tables.buckets.rows s₁
  have hmany : (UInt64.ofNat (d.denoted.toList.map Prod.snd).length).toNat = d.denoted.rows.length := by
    rw [UInt64.toNat_ofNat']
    refine Nat.mod_eq_of_lt ?_
    rw [List.length_map, hlength]
    exact h.fits.2
  have hbytes : (max (d.tables.readCounter legacyBytes) total).toNat =
      max (d.tables.readCounter legacyBytes).toNat (totalBytes d.denoted) := by rw [toNat_max, htotal]
  have hsame : s₁.buckets = d.tables.buckets ∧ s₁.parts = d.tables.parts ∧ s₁.counters = d.tables.counters := by
    obtain ⟨_, _, _, _, rfl⟩ := hrw
    exact ⟨rfl, rfl, rfl⟩
  rw [denoted_rows]
  refine ⟨{ s₁ with
    bucketUsage := usage
    counters := migratedCounters (d.denoted.toList.map Prod.snd).length d.tables.buckets.rows.length
      (max (d.tables.readCounter legacyBytes) total) s₁.counters }, ?_, hd.rewrite hread _ _, hsame.1, hsame.2.1, ?_,
        ?_, ?_, ?_⟩
  · simp only [migrateV3, returns_bind, returns_modify, returns_read]
    refine ⟨(), _, rfl, total, s₁, hnames ▸ hret, (), _, rfl, _, _, ⟨rfl, rfl⟩, ?_⟩
    rw [husage]
    unfold Catalog.readCounter
    rw [hsame.2.2]
  · exact ⟨(countIn_migratedCounters _ _ _ _ _).trans hmany, (countIn_migratedCounters _ _ _ _ _).trans hmany⟩
  · refine (countIn_migratedCounters _ _ _ _ _).trans ?_
    rw [UInt64.toNat_ofNat']
    exact Nat.mod_eq_of_lt h.fits.1
  · rintro c (rfl | rfl | rfl) <;> exact (countIn_migratedCounters _ _ _ _ _).trans hbytes
  · exact countIn_migratedCounters _ _ _ _ _

/-! ## Opening a catalog -/

theorem initializeSchema_eq_ok (h : Unmigrated d) : initializeSchema env d = .ok d' ↔
    ∃ s', Returns (migrateV3 env d.tables.buckets.rows (d.objects.rows.map decodeMigratingObject)) d.tables () s' ∧
      d' = { d with tables := { s' with schema := s'.schema.insert "metadata" currentSchemaVersion } } := by
  have hold := UInt64.lt_iff_toNat_lt.mp h.version
  have hnew : ¬ currentSchemaVersion < (d.tables.schema["metadata"]?).getD 0 := by
    rw [UInt64.lt_iff_toNat_lt]
    exact Nat.not_lt.mpr (hold.le.trans (by decide))
  have hcurrent : (d.tables.schema["metadata"]?).getD 0 < currentSchemaVersion := by
    rw [UInt64.lt_iff_toNat_lt]
    exact hold.trans (by decide)
  simp only [initializeSchema, if_neg hnew, if_pos h.version, if_pos hcurrent]
  rcases returns_or_fails (migrateV3 env d.tables.buckets.rows (d.objects.rows.map decodeMigratingObject)) d.tables with
    ⟨⟨⟩, s₁, hret⟩ | ⟨e, hfail⟩
  · rw [commit_of_returns hret]
    constructor
    · intro heq
      exact ⟨s₁, hret, (Except.ok.inj heq).symm⟩
    · rintro ⟨s', hret', rfl⟩
      rw [show s' = s₁ from (Prod.mk.inj (hret'.symm.trans hret)).2]
      rfl
  · rw [commit_of_fails hfail]
    constructor
    · intro heq
      cases heq
    · rintro ⟨s', hret', -⟩
      exact absurd hfail hret'.not_fails

/-- A catalog that was opened is opened again without change. -/
theorem initializeSchema_again {tables : Catalog} {objects : Table Bytes ObjectRow} :
    initializeSchema env ⟨objects, { tables with schema := tables.schema.insert "metadata" currentSchemaVersion }⟩ =
      .ok ⟨objects, { tables with schema := tables.schema.insert "metadata" currentSchemaVersion }⟩ := by
  unfold initializeSchema
  simp only [Table.lookup_insert_self, Option.getD_some]
  rfl

theorem decodeMigratingObject_of_decode {row : ObjectRow} {m : ObjectMetadata} (h : row.decode = some m) :
    decodeMigratingObject row = m := by
  cases row with
  | current m' => exact Option.some.inj h
  | legacy old => cases h

/-- The records that are read are those the rows stand for. -/
theorem Database.Reads.eq_denoted {t : Table Bytes ObjectMetadata} (h : d.Reads t) :
    t = d.denoted ∧ ∀ (k : Bytes) (row : ObjectRow), d.objects[k]? = some row → row.decode.isSome = true := by
  refine ⟨Std.ExtTreeMap.ext_getElem? fun k => ?_, fun k row hk => ?_⟩
  · have hread := h k
    rw [lookup_denoted]
    cases hrow : d.objects[k]? with
    | none =>
      rw [hrow] at hread
      exact Option.map_eq_none_iff.mp hread.symm
    | some row =>
      rw [hrow] at hread
      obtain ⟨m, hm, hdecode⟩ := Option.map_eq_some_iff.mp hread.symm
      rw [hm, Option.map_some, decodeMigratingObject_of_decode hdecode.symm]
  · have hread := h k
    rw [hk] at hread
    obtain ⟨m, -, hdecode⟩ := Option.map_eq_some_iff.mp hread.symm
    rw [← hdecode]
    rfl

theorem reads_denoted (h : ∀ (k : Bytes) (row : ObjectRow), d.objects[k]? = some row → row.decode.isSome = true) :
    d.Reads d.denoted := by
  intro k
  rw [lookup_denoted]
  cases hrow : d.objects[k]? with
  | none => rfl
  | some row =>
    obtain ⟨m, hm⟩ := Option.isSome_iff_exists.mp (h k row hrow)
    rw [Option.map_some, Option.map_some, Option.map_some, hm, decodeMigratingObject_of_decode hm]

/-- The counters that are recounts of the migrated rows: all but the byte counters always, those if the old counter
does not exceed the sum. -/
theorem Migrates.counters (h : Migrates d s) (hparts : d.tables.parts = ∅) (c : Counter) :
    countIn s.counters c = c.recount (s.holding d.denoted) ↔
      (c = .logical ∨ c = .versionBytes ∨ c = .physical →
        (d.tables.readCounter legacyBytes).toNat ≤ totalBytes d.denoted) := by
  have hrows : ∀ {V : Type} (t : Table Bytes V), t.countOf (fun _ => true) = t.rows.length := fun t => by
    unfold Table.countOf
    rw [List.filter_true]
  have hbytes : ∀ c : Counter, c = .logical ∨ c = .versionBytes ∨ c = .physical →
      c.recount (s.holding d.denoted) = totalBytes d.denoted := by
    rintro c (rfl | rfl | rfl)
    · rfl
    · exact h.described.bytes
    · exact h.described.bytes
  by_cases hc : c = .logical ∨ c = .versionBytes ∨ c = .physical
  · rw [h.bytes c hc, hbytes c hc]
    exact ⟨fun hmax _ => hmax ▸ Nat.le_max_left _ _, fun hle => Nat.max_eq_right (hle hc)⟩
  · refine iff_of_true ?_ fun hc' => absurd hc' hc
    cases c with
    | objects => exact h.objects.1.trans (hrows _).symm
    | buckets => exact h.bucketCount.trans ((hrows _).trans (by rw [← h.buckets]; rfl)).symm
    | versions => exact h.objects.2.trans ((hrows _).trans h.described.count).symm
    | multipart =>
      refine h.multipart.trans (Eq.symm ?_)
      show s.parts.sumOver _ _ = 0
      rw [h.parts, hparts]
      rfl
    | logical => exact absurd (.inl rfl) hc
    | versionBytes => exact absurd (.inr (.inl rfl)) hc
    | physical => exact absurd (.inr (.inr rfl)) hc

/-- Opening an older catalog leaves it as the commands keep it exactly if the sizes add up to a machine word, no
object is in the old encoding and the old byte counter is not above the sizes.  In any case the version tables and
usage rows describe the objects, the other counters are right, and opening the catalog again changes nothing. -/
theorem initializeSchema_exact_iff (env : Env) (d : Database) (h : Unmigrated d) :
    ((∃ d', initializeSchema env d = .ok d' ∧ d'.Exact) ↔ totalBytes d.denoted < 2 ^ 64 ∧
      (∀ (k : Bytes) (row : ObjectRow), d.objects[k]? = some row → row.decode.isSome = true) ∧
      (d.tables.readCounter legacyBytes).toNat ≤ totalBytes d.denoted) ∧
    ∀ d', initializeSchema env d = .ok d' → d'.objects = d.objects ∧ Described (d'.tables.holding d.denoted) ∧
      (∀ c : Counter, c ≠ .logical → c ≠ .versionBytes → c ≠ .physical →
        countIn d'.tables.counters c = c.recount (d'.tables.holding d.denoted)) ∧
      initializeSchema env d' = .ok d' := by
  have hparts := h.empty.2.2.2.2.1
  have hlt : ∀ s',
    Returns (migrateV3 env d.tables.buckets.rows (d.objects.rows.map decodeMigratingObject)) d.tables () s' →
      totalBytes d.denoted < 2 ^ 64 := by
    intro s' hret
    obtain ⟨_, s₁, -, hret⟩ := returns_bind.mp hret
    obtain ⟨total, s₂, hloop, -⟩ := returns_bind.mp hret
    have hsum := sum_lt_of_migrateObjects hloop
    rw [denoted_rows, List.map_map] at hsum
    rw [totalBytes_eq]
    exact (Nat.zero_add _).symm.trans_lt hsum
  have hmigrates : ∀ s',
      Returns (migrateV3 env d.tables.buckets.rows (d.objects.rows.map decodeMigratingObject)) d.tables () s' →
      Migrates d s' := by
    intro s' hret
    obtain ⟨s₁, hret₁, hmig⟩ := migrateV3_returns h (hlt s' hret)
    rwa [(Prod.mk.inj (hret.symm.trans hret₁)).2]
  refine ⟨⟨?_, ?_⟩, ?_⟩
  · rintro ⟨d', hd', t, hreads, -, hcounters⟩
    obtain ⟨s', hret, rfl⟩ := (initializeSchema_eq_ok h).mp hd'
    obtain ⟨rfl, hcurrent⟩ := Database.Reads.eq_denoted hreads
    refine ⟨hlt s' hret, hcurrent, ?_⟩
    exact ((hmigrates s' hret).counters hparts .logical).mp (hcounters .logical) (.inl rfl)
  · rintro ⟨hsum, hcurrent, hlegacy⟩
    obtain ⟨s', hret, hmig⟩ := migrateV3_returns h hsum
    refine ⟨_, (initializeSchema_eq_ok h).mpr ⟨s', hret, rfl⟩, d.denoted, reads_denoted hcurrent,
      hmig.described.rewrite (fun _ => rfl) _ _, fun c => ?_⟩
    exact (hmig.counters hparts c).mpr fun _ => hlegacy
  · intro d' hd'
    obtain ⟨s', hret, rfl⟩ := (initializeSchema_eq_ok h).mp hd'
    have hmig := hmigrates s' hret
    refine ⟨rfl, hmig.described.rewrite (fun _ => rfl) _ _, fun c hl hv hp => ?_, initializeSchema_again⟩
    exact (hmig.counters hparts c).mpr fun hc => (hc.elim (absurd · hl) fun hc => hc.elim (absurd · hv) (absurd · hp))

namespace Sample

/-- A catalog with one bucket and one object, and the old byte counter. -/
def unversioned (row : ObjectRow) (bytes : UInt64) : Database where
  objects := (∅ : Table Bytes ObjectRow).insert (objectKey (.ofNat 1) key) row
  tables := { Catalog.empty with
    buckets := (∅ : Table Bytes Bucket).insert (bucketKey (.ofNat 1)) (bucket .disabled none)
    counters := (∅ : Table String UInt64).insert legacyBytes bytes
    schema := ∅ }

/-- The object of ten bytes in the old encoding. -/
def legacyObject : LegacyObjectMetadata :=
  let m := object 1 1 10
  ⟨m.id, m.bucketId, m.key, m.versionId, m.size, m.checksum, m.contentType, m.customMetadata, m.createdAt, m.modifiedAt⟩

theorem unversioned_unmigrated {row : ObjectRow} {bytes : UInt64}
    (h : objectKey (decodeMigratingObject row).bucketId (decodeMigratingObject row).key = objectKey (.ofNat 1) key) :
    Unmigrated (unversioned row bytes) := by
  have hobject : ∀ (k : Bytes) (row' : ObjectRow), (unversioned row bytes).objects[k]? = some row' →
      k = objectKey (.ofNat 1) key ∧ row' = row := by
    intro k row' hk
    exact (Table.of_lookup_singleton hk).imp_right Eq.symm
  have hversion : ((∅ : Table String UInt64)["metadata"]?).getD 0 < 3 := by decide
  refine ⟨hversion, fun k b hk => ?_, fun k row' hk => ?_, fun k k' row₁ row₂ hk hk' _ => ?_,
    ⟨rfl, rfl, rfl, rfl, rfl, rfl⟩, ?_⟩
  · obtain ⟨rfl, rfl⟩ := Table.of_lookup_singleton hk
    rfl
  · obtain ⟨rfl, rfl⟩ := hobject k row' hk
    exact h.symm
  · exact (hobject k row₁ hk).1.trans (hobject k' row₂ hk').1.symm
  · have hlen : (unversioned row bytes).objects.rows.length = 1 :=
      (rows_insert_fresh (Table.lookup_empty _) row).length_eq
    have hone : (unversioned row bytes).tables.buckets.rows.length = 1 :=
      (rows_insert_fresh (Table.lookup_empty _) (bucket .disabled none)).length_eq
    rw [hlen, hone]
    decide

end Sample

theorem initializeSchema_exact_unversioned :
    ∃ d', initializeSchema Sample.env (Sample.unversioned (.current (Sample.object 1 1 10)) 10) = .ok d' ∧
      d'.Exact := by
  have hbytes : totalBytes (Sample.unversioned (.current (Sample.object 1 1 10)) 10).denoted = 10 := by decide +kernel
  refine (initializeSchema_exact_iff Sample.env _ (Sample.unversioned_unmigrated rfl)).1.mpr ⟨?_,
    fun k row hk => ?_, ?_⟩
  · rw [hbytes]
    decide
  · obtain ⟨rfl, rfl⟩ := Table.of_lookup_singleton hk
    rfl
  · rw [hbytes]
    decide +kernel

/-- An object of the old encoding stays unreadable, and an old byte counter that is too high stays too high. -/
theorem initializeSchema_inexact :
    Unmigrated (Sample.unversioned (.legacy Sample.legacyObject) 0) ∧
    Unmigrated (Sample.unversioned (.current (Sample.object 1 1 10)) 15) ∧
    ((initializeSchema Sample.env (Sample.unversioned (.legacy Sample.legacyObject) 0)).toOption.any fun d =>
      d.objects.rows.map ObjectRow.decode = [none]) = true ∧
    ((initializeSchema Sample.env (Sample.unversioned (.current (Sample.object 1 1 10)) 15)).toOption.any fun d =>
      d.objects.rows.map ObjectRow.decode = [some (Sample.object 1 1 10)] ∧
        d.tables.readCounter logicalBytes = 15) = true :=
  ⟨Sample.unversioned_unmigrated rfl, Sample.unversioned_unmigrated rfl, by decide +kernel, by decide +kernel⟩

end RecordStore.Metadata

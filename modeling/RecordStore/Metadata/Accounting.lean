import RecordStore.Metadata.Invariant

/-!
# Metadata.Accounting — usage rows and counters against the tables

`BUCKET_USAGE` and the global counters are maintained by increments.  `Accounted` says that they are
what a recount of the tables would give.  The increments are partly unchecked machine arithmetic; they
are followed modulo `2 ^ 64`, and the range check on the global counters, which bound every usage row,
turns the congruences into equations.
-/

namespace RecordStore.Metadata

open RecordStore.Lib RecordStore.Core Tx

/-! ## Wrapping arithmetic -/

section Wrapping

/-- The machine word `x` holds `z` up to wrapping. -/
def Holds (x : UInt64) (z : Int) : Prop := (x.toNat : Int) ≡ z [ZMOD 2 ^ 64]

variable {x y : UInt64} {a b : Int}

theorem holds_self (x : UInt64) : Holds x x.toNat := Int.ModEq.refl _

theorem Holds.add (hx : Holds x a) (hy : Holds y b) : Holds (x + y) (a + b) := by
  unfold Holds at *
  rw [UInt64.toNat_add, Int.natCast_mod]
  exact (Int.mod_modEq _ _).trans (by push_cast; exact hx.add hy)

theorem Holds.sub (hx : Holds x a) (hy : Holds y b) : Holds (x - y) (a - b) := by
  unfold Holds at *
  have hadd : Holds (x - y + y) ((x - y).toNat + y.toNat) := (holds_self _).add (holds_self _)
  rw [UInt64.sub_add_cancel] at hadd
  have hxy : ((x - y).toNat : Int) ≡ x.toNat - y.toNat [ZMOD 2 ^ 64] := by
    have := (Int.ModEq.sub hadd (Int.ModEq.refl (y.toNat : Int))).symm
    simpa using this
  exact hxy.trans (hx.sub hy)

theorem Holds.congr (h : Holds x a) (e : a = b) : Holds x b := e ▸ h

/-- Within the range of a word nothing wraps. -/
theorem Holds.eq (h : Holds x a) (h0 : 0 ≤ a) (h1 : a < 2 ^ 64) : (x.toNat : Int) = a := by
  have hx := UInt64.toNat_lt x
  unfold Holds Int.ModEq at h
  rw [Int.emod_eq_of_lt (by omega) (by omega), Int.emod_eq_of_lt h0 h1] at h
  exact h

end Wrapping

/-! ## Meters -/

/-- The quantities a usage row keeps. -/
inductive Meter where
  | objects
  | logical
  | versions
  | versionBytes
  | multipart

namespace Meter

def of : Meter → BucketUsage → UInt64
  | .objects, u => u.currentObjects
  | .logical, u => u.logicalBytes
  | .versions, u => u.versions
  | .versionBytes, u => u.versionBytes
  | .multipart, u => u.multipartBytes

def counter : Meter → Counter
  | .objects => .objects
  | .logical => .logical
  | .versions => .versions
  | .versionBytes => .versionBytes
  | .multipart => .multipart

/-- A part counts for the bucket of its upload. -/
def partIn (uploads : Table Bytes MultipartUpload) (b : BucketId) (p : UploadedPart) : Bool :=
  (uploads[p.uploadId.bytes]?).any fun u => u.bucketId = b

/-- What the tables hold for a bucket. -/
def stored (s : Catalog) (b : BucketId) : Meter → Nat
  | .objects => s.objects.countOf fun m => m.bucketId = b
  | .logical => s.objects.sumOver (fun m => m.bucketId = b) fun m => m.size.toNat
  | .versions => s.versions.countOf fun r => r.bucketId = b
  | .versionBytes => s.versions.sumOver (fun r => r.bucketId = b) fun r => (sizeOf? r.asObject).toNat
  | .multipart => s.parts.sumOver (partIn s.multipart b) fun p => p.size.toNat

end Meter

/-- The sum of a meter over all usage rows. -/
def usageTotal (t : Table Bytes BucketUsage) (m : Meter) : Nat := t.sumOver (fun _ => true) fun u => (m.of u).toNat

/-- Usage rows and counters are what a recount of the tables gives. -/
structure Accounted (s : Catalog) : Prop where
  bucket : ∀ (b : BucketId) (m : Meter), (m.of (s.readBucketUsage b)).toNat = m.stored s b
  total : ∀ m : Meter, countIn s.counters m.counter = usageTotal s.bucketUsage m
  physical : countIn s.counters .physical = countIn s.counters .versionBytes
  buckets : countIn s.counters .buckets = s.buckets.countOf fun _ => true

/-- How the counters move when the meters of one bucket move by `δ`. -/
def ledger (δ : Meter → Int) : Counter → Int
  | .objects => δ .objects
  | .buckets => 0
  | .logical => δ .logical
  | .versions => δ .versions
  | .versionBytes => δ .versionBytes
  | .physical => δ .versionBytes
  | .multipart => δ .multipart

variable {s s' : Catalog} {env : Env} {bucket : BucketId} {key : ObjectKey}

/-! ## One bucket moves -/

section Change

variable {u u' : BucketUsage} {δ : Meter → Int}

theorem readBucketUsage_eq (h : s.bucketUsage[bucketKey bucket]? = some u) : s.readBucketUsage bucket = u := by
  unfold Catalog.readBucketUsage
  rw [h]
  rfl

theorem readBucketUsage_insert (s : Catalog) (b b' : BucketId) (u : BucketUsage) :
    (({ s with bucketUsage := s.bucketUsage.insert (bucketKey b) u } : Catalog)).readBucketUsage b' =
      if b' = b then u else s.readBucketUsage b' := by
  unfold Catalog.readBucketUsage
  rw [Table.lookup_insert]
  by_cases h : b' = b
  · rw [if_pos h, if_pos (by rw [h])]
    rfl
  · rw [if_neg h, if_neg fun e => h (bucketKey_inj e)]

theorem usageTotal_insert {t : Table Bytes BucketUsage} {k : Bytes} (h : t[k]? = some u) (u' : BucketUsage)
    (m : Meter) :
    usageTotal (t.insert k u') m + (m.of u).toNat = usageTotal t m + (m.of u').toNat := by
  have := Table.sumOver_insert t k u' (fun _ => true) fun u => (m.of u).toNat
  rw [h] at this
  exact this

theorem le_usageTotal {t : Table Bytes BucketUsage} {k : Bytes} (h : t[k]? = some u) (m : Meter) :
    (m.of u).toNat ≤ usageTotal t m :=
  Table.share_le_sumOver (p := fun _ => true) (f := fun u => (m.of u).toNat) h

/-- The meters of one bucket moved by `δ`: in the tables, in the usage row up to wrapping, and in the
counters, which keep the row from wrapping. -/
theorem Accounted.change (h : Accounted s) (hrow : s.bucketUsage[bucketKey bucket]? = some u)
    (husage : s'.bucketUsage = s.bucketUsage.insert (bucketKey bucket) u')
    (hbuckets : s'.buckets = s.buckets)
    (hstored : ∀ b m, (Meter.stored s' b m : Int) = Meter.stored s b m + if b = bucket then δ m else 0)
    (hholds : ∀ m : Meter, Holds (m.of u') ((m.of u).toNat + δ m))
    (hshift : Shift s.counters s'.counters (ledger δ)) : Accounted s' := by
  have hcount : ∀ m : Meter, (countIn s'.counters m.counter : Int) = usageTotal s.bucketUsage m + δ m := by
    intro m
    rw [hshift, h.total]
    cases m <;> rfl
  have hu : ∀ m : Meter, (m.of u).toNat = m.stored s bucket := by
    intro m
    rw [← h.bucket bucket m, readBucketUsage_eq hrow]
  have hu' : ∀ m : Meter, ((m.of u').toNat : Int) = (m.of u).toNat + δ m := by
    intro m
    refine (hholds m).eq ?_ ?_
    · have := hstored bucket m
      rw [if_pos rfl] at this
      rw [hu m, ← this]
      exact Int.natCast_nonneg _
    · have h1 := hcount m
      have h2 := countIn_lt s'.counters m.counter
      have h3 := le_usageTotal hrow m
      omega
  refine ⟨?_, ?_, ?_, ?_⟩
  · intro b m
    have hread : s'.readBucketUsage b = if b = bucket then u' else s.readBucketUsage b := by
      rw [← readBucketUsage_insert s bucket b u']
      unfold Catalog.readBucketUsage
      rw [husage]
    have hst := hstored b m
    rw [hread]
    by_cases hb : b = bucket
    · subst hb
      rw [if_pos rfl] at hst ⊢
      have := hu' m
      have := hu m
      omega
    · rw [if_neg hb] at hst ⊢
      have := h.bucket b m
      omega
  · intro m
    have h1 := hcount m
    have h2 := usageTotal_insert hrow u' m
    have h3 := hu' m
    rw [husage]
    omega
  · have h1 := hshift .physical
    have h2 := hshift .versionBytes
    have h3 := h.physical
    simp only [ledger] at h1 h2
    omega
  · have h1 := hshift .buckets
    have h2 := h.buckets
    simp only [ledger] at h1
    rw [hbuckets]
    omega

end Change

/-! ## Object commands -/

section Exchange

variable {previous current : Option ObjectMetadata} {removed new : Option ObjectVersionRecord}

/-- How the meters of a bucket move when its current object and one of its versions are exchanged. -/
def exchange (previous current : Option ObjectMetadata) (removed new : Option ObjectVersionRecord) :
    Meter → Int
  | .objects => (ofBool current.isSome).toNat - (ofBool previous.isSome).toNat
  | .logical => (sizeOf? current).toNat - (sizeOf? previous).toNat
  | .versions => (ofBool new.isSome).toNat - (ofBool removed.isSome).toNat
  | .versionBytes => (bytesOf new).toNat - (bytesOf removed).toNat
  | .multipart => 0

theorem elim_share {V : Type} {o : Option V} {p : V → Bool} {c : Prop} [Decidable c] (f : V → Nat)
    (h : ∀ v, o = some v → (p v = true ↔ c)) :
    o.elim 0 (Table.share p f) = if c then o.elim 0 f else 0 := by
  cases o with
  | none => simp
  | some v =>
    have hv := h v rfl
    simp only [Option.elim_some, Table.share]
    exact if_congr hv rfl rfl

theorem elim_one {V : Type} (o : Option V) : (o.elim 0 fun _ => 1) = (ofBool o.isSome).toNat := by
  cases o <;> rfl

theorem elim_size (o : Option ObjectMetadata) : (o.elim 0 fun m => m.size.toNat) = (sizeOf? o).toNat := by
  cases o <;> rfl

theorem elim_bytes (o : Option ObjectVersionRecord) :
    (o.elim 0 fun r => (sizeOf? r.asObject).toNat) = (bytesOf o).toNat := by
  cases o <;> rfl

/-- The values that come and go belong to one bucket, so only its meters move. -/
theorem stored_exchange (hob : Table.Swap s.objects s'.objects previous current)
    (hve : Table.Swap s.versions s'.versions removed new) (hparts : s'.parts = s.parts)
    (huploads : s'.multipart = s.multipart)
    (hprev : ∀ m, previous = some m → m.bucketId = bucket)
    (hcur : ∀ m, current = some m → m.bucketId = bucket)
    (hrem : ∀ r, removed = some r → r.bucketId = bucket) (hnew : ∀ r, new = some r → r.bucketId = bucket)
    (b : BucketId) (m : Meter) :
    (m.stored s' b : Int) =
      m.stored s b + if b = bucket then exchange previous current removed new m else 0 := by
  have hin : ∀ {V : Type} {o : Option V} {g : V → BucketId} (f : V → Nat),
      (∀ v, o = some v → g v = bucket) →
      o.elim 0 (Table.share (fun v => decide (g v = b)) f) = if b = bucket then o.elim 0 f else 0 := by
    intro V o g f hg
    refine elim_share f fun v hv => ?_
    rw [hg v hv, decide_eq_true_eq, eq_comm]
  have hob' : ∀ f : ObjectMetadata → Nat,
      s'.objects.sumOver (fun m => decide (m.bucketId = b)) f + (if b = bucket then previous.elim 0 f else 0) =
        s.objects.sumOver (fun m => decide (m.bucketId = b)) f + if b = bucket then current.elim 0 f else 0 := by
    intro f
    rw [← hin f hprev, ← hin f hcur]
    exact hob _ f
  have hve' : ∀ f : ObjectVersionRecord → Nat,
      s'.versions.sumOver (fun r => decide (r.bucketId = b)) f + (if b = bucket then removed.elim 0 f else 0) =
        s.versions.sumOver (fun r => decide (r.bucketId = b)) f + if b = bucket then new.elim 0 f else 0 := by
    intro f
    rw [← hin f hrem, ← hin f hnew]
    exact hve _ f
  cases m with
  | objects =>
    have := hob' fun _ => 1
    simp only [Meter.stored, exchange, Table.countOf_eq_sumOver, elim_one] at this ⊢
    split_ifs at this ⊢ <;> omega
  | logical =>
    have := hob' fun m => m.size.toNat
    simp only [Meter.stored, exchange, elim_size] at this ⊢
    split_ifs at this ⊢ <;> omega
  | versions =>
    have := hve' fun _ => 1
    simp only [Meter.stored, exchange, Table.countOf_eq_sumOver, elim_one] at this ⊢
    split_ifs at this ⊢ <;> omega
  | versionBytes =>
    have := hve' fun r => (sizeOf? r.asObject).toNat
    simp only [Meter.stored, exchange, elim_bytes] at this ⊢
    split_ifs at this ⊢ <;> omega
  | multipart =>
    simp only [Meter.stored, exchange, hparts, huploads, ite_self, add_zero]

theorem swap_dropVersion {t : Table Bytes ObjectVersionRecord}
    (h : ∀ r, removed = some r → t[r.versionId.bytes]? = some r) :
    Table.Swap t (dropVersion removed t) removed none := by
  cases removed with
  | none => exact Table.Swap.refl t
  | some r =>
    have hs := Table.swap_erase t r.versionId.bytes
    rw [h r rfl] at hs
    exact hs

theorem swap_publishObject (t : Table Bytes ObjectMetadata) (k : Bytes) (o : Option ObjectVersionRecord) :
    Table.Swap t (publishObject k o (t.erase k)) t[k]? (o.bind fun r => r.asObject) := by
  unfold publishObject
  cases o.bind fun r => r.asObject with
  | none => exact Table.swap_erase t k
  | some m => exact (Table.swap_erase t k).add (Table.lookup_erase_self t k) m

/-- The usage row after an exchange, as the machine computes it. -/
def exchanged (previous current : Option ObjectMetadata) (removed new : Option ObjectVersionRecord)
    (u : BucketUsage) : BucketUsage where
  currentObjects := u.currentObjects - ofBool previous.isSome + ofBool current.isSome
  logicalBytes := u.logicalBytes - sizeOf? previous + sizeOf? current
  versions := u.versions - ofBool removed.isSome + ofBool new.isSome
  versionBytes := u.versionBytes - bytesOf removed + bytesOf new
  multipartBytes := u.multipartBytes

theorem holds_exchanged (u : BucketUsage) (m : Meter) :
    Holds (m.of (exchanged previous current removed new u))
      ((m.of u).toNat + exchange previous current removed new m) := by
  have hmove : ∀ x y z : UInt64, Holds (x - y + z) (x.toNat + (z.toNat - y.toNat)) := by
    intro x y z
    exact (((holds_self x).sub (holds_self y)).add (holds_self z)).congr (by ring)
  cases m with
  | objects => exact hmove _ _ _
  | logical => exact hmove _ _ _
  | versions => exact hmove _ _ _
  | versionBytes => exact hmove _ _ _
  | multipart => exact (holds_self _).congr (add_zero _).symm

theorem WF.usageRow (h : WF s) {b : Bucket} (hb : s.readBucket bucket = some b) :
    s.bucketUsage[bucketKey bucket]? = some (s.readBucketUsage bucket) := by
  have hrow := h.usage (bucketKey bucket)
  rw [show s.buckets[bucketKey bucket]? = some b from hb, Option.isSome_some, Option.isSome_iff_exists] at hrow
  obtain ⟨u, hu⟩ := hrow
  rw [readBucketUsage_eq hu, hu]

/-- The tables of `s'` are those of `s` with one current object and one version of a bucket exchanged, and
the accounting moved with them: the common form of what the object commands do. -/
structure Exchanges (s s' : Catalog) (bucket : BucketId) (previous current : Option ObjectMetadata)
    (removed new : Option ObjectVersionRecord) : Prop where
  objects : Table.Swap s.objects s'.objects previous current
  versions : Table.Swap s.versions s'.versions removed new
  parts : s'.parts = s.parts
  uploads : s'.multipart = s.multipart
  buckets : s'.buckets = s.buckets
  usage : s'.bucketUsage = s.bucketUsage.insert (bucketKey bucket)
    (exchanged previous current removed new (s.readBucketUsage bucket))
  previousIn : ∀ m, previous = some m → m.bucketId = bucket
  currentIn : ∀ m, current = some m → m.bucketId = bucket
  removedIn : ∀ r, removed = some r → r.bucketId = bucket
  newIn : ∀ r, new = some r → r.bucketId = bucket
  counters : Shift s.counters s'.counters (ledger (exchange previous current removed new))

theorem Exchanges.stored (h : Exchanges s s' bucket previous current removed new) (b : BucketId) (m : Meter) :
    (m.stored s' b : Int) = m.stored s b + if b = bucket then exchange previous current removed new m else 0 :=
  stored_exchange h.objects h.versions h.parts h.uploads h.previousIn h.currentIn h.removedIn h.newIn b m

theorem Accounted.exchange (h : Accounted s) (hw : WF s) {b : Bucket} (hb : s.readBucket bucket = some b)
    (hx : Exchanges s s' bucket previous current removed new) : Accounted s' :=
  h.change (hw.usageRow hb) hx.usage hx.buckets hx.stored (holds_exchanged _) hx.counters

/-- The current object of a key belongs to the key's bucket. -/
theorem Pointers.bucketId {m : ObjectMetadata} (h : Pointers s.versions s.objects s.markers)
    (hm : s.objects[objectKey bucket key]? = some m) : m.bucketId = bucket :=
  (objectKey_inj (h.object _ m hm).1).1.symm

theorem checkedReplace_eq {a b c r : UInt64} (h : checkedReplace a b c = some r) : r = a - b + c := by
  unfold checkedReplace at h
  split_ifs at h
  exact (Option.some.inj h).symm

theorem PutUsage.exchanged {u u' : BucketUsage} {m : ObjectMetadata} {n : Bool}
    (h : PutUsage u u' previous removed m.size) :
    u' = Metadata.exchanged previous (some m) removed (some (.object m n)) u := by
  have hobjects : u'.currentObjects = u.currentObjects - ofBool previous.isSome + 1 := by
    rw [h.objects]
    cases previous <;> simp [ofBool]
  rw [Metadata.exchanged, BucketUsage.mk.injEq]
  exact ⟨hobjects, checkedReplace_eq h.logical, h.versions, checkedReplace_eq h.versionBytes, h.multipart⟩

theorem putObject_exchanges (hw : WF s) {m : ObjectMetadata} {lock : Option ObjectLockState} {origin : WriteOrigin}
    {res : ObjectCommitResult} (hret : Returns (putObjectTx env m lock origin) s res s')
    (hfresh : s.versions[m.versionId.bytes]? = none) :
    ∃ replaced isNull, Exchanges s s' m.bucketId s.objects[objectKey m.bucketId m.key]? (some m) replaced
      (some (.object m isNull)) := by
  obtain ⟨b, isNull, replaced, u', hb, -, hnull, hu', -, -, -, -, t, e, ht, rfl⟩ := putObjectTx_returns hret
  obtain rfl := hu'.exchanged (n := isNull)
  have hrem := removed_row hw.index hnull
  refine ⟨replaced, isNull, Table.swap_insert _ _ _,
    (swap_dropVersion fun r hr => (hrem r hr).1).add (lookup_dropVersion_none hfresh) _, rfl, rfl, rfl, rfl,
    fun m' hm' => hw.pointers.bucketId hm', (by rintro _ ⟨⟩; rfl), fun r hr => (hrem r hr).2.1,
    (by rintro _ ⟨⟩; rfl), ht.congr ?_⟩
  intro c
  cases s.objects[objectKey m.bucketId m.key]? <;> cases c <;>
    simp [putShift, only, ledger, Metadata.exchange, ofBool, sizeOf?, bytesOf, ObjectVersionRecord.asObject]

theorem Accounted.putObject (h : Accounted s) (hw : WF s) {m : ObjectMetadata}
    {lock : Option ObjectLockState} {origin : WriteOrigin} {res : ObjectCommitResult}
    (hret : Returns (putObjectTx env m lock origin) s res s')
    (hfresh : s.versions[m.versionId.bytes]? = none) : Accounted s' := by
  obtain ⟨replaced, isNull, hx⟩ := putObject_exchanges hw hret hfresh
  obtain ⟨b, -, -, -, hb, -⟩ := putObjectTx_returns hret
  exact h.exchange hw hb hx

/-- What an ordinary delete publishes, if anything, has no bytes. -/
theorem deleteObject_exchanges (hw : WF s) {nm : NewDeleteMarker} {res : DeleteObjectResult}
    (hret : Returns (deleteObjectTx env bucket key nm) s res s') (hfresh : s.versions[nm.versionId.bytes]? = none) :
    ∃ removed new, bytesOf new = 0 ∧ Exchanges s s' bucket s.objects[objectKey bucket key]? none removed new := by
  obtain ⟨record, s₁, r, hb, hdel, t, e, ht, rfl⟩ := deleteObjectTx_returns hret
  by_cases hv : record.versioning = .disabled
  · rw [hv] at hdel
    obtain ⟨removed, hnull, -, rfl, t', ht', rfl⟩ := deleteCurrent_disabled hdel
    refine ⟨removed, none, rfl, Table.swap_erase _ _, swap_dropVersion fun r hr => (hnull.row hw.index hr).1,
      rfl, rfl, rfl, ?_, fun m' hm' => hw.pointers.bucketId hm', (fun m hm => by cases hm),
      fun r hr => (hnull.row hw.index hr).2.2.1, (fun r hr => by cases hr), (ht'.trans ht).congr ?_⟩
    · simp [exchanged, hideUsage, dropUsage, ofBool, sizeOf?, bytesOf]
    · intro c
      cases c <;>
        simp [dropShift, hideShift, only, ledger, Metadata.exchange, ofBool, sizeOf?, bytesOf]
  · obtain ⟨isNull, removed, -, hnull, -, rfl, t', ht', rfl⟩ := deleteCurrent_marker hv hdel
    have hrem := removed_row hw.index hnull
    refine ⟨removed, some (.deleteMarker (newMarker bucket key nm) isNull), rfl, Table.swap_erase _ _,
      (swap_dropVersion fun r hr => (hrem r hr).1).add (lookup_dropVersion_none hfresh) _, rfl, rfl, rfl, ?_,
      fun m' hm' => hw.pointers.bucketId hm', (fun m hm => by cases hm), fun r hr => (hrem r hr).2.1,
      (by rintro _ ⟨⟩; rfl), (ht'.trans ht).congr ?_⟩
    · simp [exchanged, hideUsage, markUsage, dropUsage, ofBool, sizeOf?, bytesOf, ObjectVersionRecord.asObject]
    · intro c
      cases c <;>
        simp [dropShift, hideShift, only, ledger, Metadata.exchange, ofBool, sizeOf?, bytesOf,
          ObjectVersionRecord.asObject]
      ring

theorem Accounted.deleteObject (h : Accounted s) (hw : WF s) {nm : NewDeleteMarker} {res : DeleteObjectResult}
    (hret : Returns (deleteObjectTx env bucket key nm) s res s')
    (hfresh : s.versions[nm.versionId.bytes]? = none) : Accounted s' := by
  obtain ⟨removed, new, -, hx⟩ := deleteObject_exchanges hw hret hfresh
  obtain ⟨b, -, -, hb, -⟩ := deleteObjectTx_returns hret
  exact h.exchange hw hb hx

/-- The removal of a version exchanges the key's current object for the promoted one if the version was
current, and no object otherwise. -/
theorem removeExact_exchanges (hw : WF s) {version : VersionId} {release : LockRelease} {r : ObjectVersionRecord}
    {res : DeleteVersionResult} (hr : s.versions[version.bytes]? = some r) (hm : r.matchesKey bucket key)
    (hret : Returns (removeExactVersion env bucket key version release r) s res s') :
    (s.currentVersion (objectKey bucket key) = some version ∧
      Exchanges s s' bucket s.objects[objectKey bucket key]?
        (((s.removeVersion r).latestVersion bucket key).bind fun x => x.asObject) (some r) none) ∨
    Exchanges s s' bucket none none (some r) none := by
  obtain rfl : version = r.versionId := Id.bytes_inj.mp (hw.index.key _ _ hr)
  obtain ⟨-, ob, mk, u', c, t, e, hcase, rfl⟩ := removeExactVersion_returns hret
  have hver : Table.Swap s.versions (s.versions.erase r.versionId.bytes) (some r) none := by
    have hs := Table.swap_erase s.versions r.versionId.bytes
    rwa [hr] at hs
  rcases hcase with ⟨hcur, rfl, rfl, rfl, ht⟩ | ⟨-, rfl, rfl, rfl, ht⟩
  · -- the promoted version is one of the key's versions that are left
    have hnext : ∀ m, ((s.removeVersion r).latestVersion bucket key).bind (fun x => x.asObject) = some m →
        m.bucketId = bucket := by
      intro m hm'
      obtain ⟨next, hnext, hob⟩ := Option.bind_eq_some_iff.mp hm'
      obtain ⟨-, hb', -⟩ := latestVersion_some (s := { s.removeVersion r with
        nullVersions := clearNullRow (objectKey bucket key) r.versionId r s.nullVersions })
        (hw.index.removeExact hr hm) hnext
      cases next with
      | object m' n =>
        obtain rfl := Option.some.inj hob
        exact hb'
      | deleteMarker m' n => cases hob
    refine .inl ⟨hcur, swap_publishObject _ _ _, hver, rfl, rfl, rfl, ?_,
      fun m' hm' => hw.pointers.bucketId hm', hnext, (by rintro _ ⟨⟩; exact hm.1),
      (fun r hr => by cases hr), ht.congr ?_⟩
    · simp [exchanged, showUsage, hideUsage, dropUsage, ofBool, sizeOf?, bytesOf]
    · intro c
      cases c <;>
        simp [dropShift, hideShift, showShift, only, ledger, Metadata.exchange, ofBool, sizeOf?, bytesOf] <;>
        ring
  · refine .inr ⟨Table.Swap.refl _, hver, rfl, rfl, rfl, ?_, (fun m hm => by cases hm), (fun m hm => by cases hm),
      (by rintro _ ⟨⟩; exact hm.1), (fun r hr => by cases hr), ht.congr ?_⟩
    · simp [exchanged, dropUsage, ofBool, sizeOf?, bytesOf]
    · intro c
      cases c <;>
        simp [dropShift, only, ledger, Metadata.exchange, ofBool, sizeOf?, bytesOf]

theorem Accounted.deleteObjectVersion (h : Accounted s) (hw : WF s) {version : VersionId}
    {release : LockRelease} {res : Option DeleteVersionResult}
    (hret : Returns (deleteObjectVersionTx env bucket key version release) s res s') : Accounted s' := by
  rcases deleteObjectVersionTx_returns hret with rfl | ⟨r, res', hr, hm, hrem⟩
  · exact h
  · obtain ⟨b, hb, -⟩ := hw.owned _ _ hr
    rw [hm.1] at hb
    rcases removeExact_exchanges hw hr hm hrem with ⟨-, hx⟩ | hx
    · exact h.exchange hw hb hx
    · exact h.exchange hw hb hx

end Exchange

/-! ## Uploads -/

section Uploads

/-- Nothing that is accounted for changed. -/
theorem Accounted.frame (h : Accounted s) (hstored : ∀ b (m : Meter), m.stored s' b = m.stored s b)
    (husage : s'.bucketUsage = s.bucketUsage) (hcounters : s'.counters = s.counters)
    (hbuckets : (s'.buckets.countOf fun _ => true) = s.buckets.countOf fun _ => true) : Accounted s' := by
  refine ⟨?_, ?_, ?_, ?_⟩
  · intro b m
    rw [hstored, ← h.bucket]
    unfold Catalog.readBucketUsage
    rw [husage]
  · intro m
    rw [hcounters, husage, h.total]
  · rw [hcounters, h.physical]
  · rw [hcounters, hbuckets, h.buckets]

/-- An upload keeps its bucket, so its parts stay where they are. -/
theorem stored_setUploads {uploads : Table Bytes MultipartUpload}
    (h : ∀ (k : Bytes) (p : UploadedPart), s.parts[k]? = some p →
      ∀ b, Meter.partIn uploads b p = Meter.partIn s.multipart b p)
    (b : BucketId) (m : Meter) : m.stored { s with multipart := uploads } b = m.stored s b := by
  cases m with
  | multipart =>
    refine Table.sumOver_congr fun k p hp => ?_
    unfold Table.share
    rw [h k p hp b]
  | _ => rfl

/-- How the meters of a bucket move when its parts grow by `d` bytes. -/
def grown (d : Int) : Meter → Int
  | .multipart => d
  | _ => 0

/-- The parts of one bucket grew by `d` bytes. -/
theorem Accounted.parts (h : Accounted s) (hw : WF s) {b : Bucket} (hb : s.readBucket bucket = some b)
    {x : UInt64} {d : Int} (hob : s'.objects = s.objects) (hve : s'.versions = s.versions)
    (hbuckets : s'.buckets = s.buckets)
    (husage : s'.bucketUsage = s.bucketUsage.insert (bucketKey bucket)
      { s.readBucketUsage bucket with multipartBytes := x })
    (hx : Holds x ((s.readBucketUsage bucket).multipartBytes.toNat + d))
    (hstored : ∀ b, (Meter.stored s' b .multipart : Int) =
      Meter.stored s b .multipart + if b = bucket then d else 0)
    (hshift : Shift s.counters s'.counters (only .multipart d)) : Accounted s' := by
  have hkeep : ∀ y : UInt64, Holds y (y.toNat + 0) := fun y => (holds_self y).congr (add_zero _).symm
  refine h.change (δ := grown d) (hw.usageRow hb) husage hbuckets ?_ ?_ (hshift.congr ?_)
  · intro b' m
    cases m with
    | multipart => exact hstored b'
    | objects => simp only [Meter.stored, hob, grown, ite_self, add_zero]
    | logical => simp only [Meter.stored, hob, grown, ite_self, add_zero]
    | versions => simp only [Meter.stored, hve, grown, ite_self, add_zero]
    | versionBytes => simp only [Meter.stored, hve, grown, ite_self, add_zero]
  · intro m
    cases m with
    | multipart => exact hx
    | _ => exact hkeep _
  · intro c
    cases c <;> rfl

theorem partIn_eq {uploads : Table Bytes MultipartUpload} {up : MultipartUpload} {p : UploadedPart}
    (h : uploads[p.uploadId.bytes]? = some up) (b : BucketId) :
    Meter.partIn uploads b p = true ↔ b = up.bucketId := by
  unfold Meter.partIn
  rw [h, Option.any_some, decide_eq_true_eq, eq_comm]

theorem Accounted.createUpload (h : Accounted s) (hw : WF s) {up : MultipartUpload} {u : Unit}
    (hret : Returns (createMultipartUploadTx up) s u s') : Accounted s' := by
  obtain ⟨hb, hnew, rfl⟩ := createMultipartUploadTx_returns hret
  refine h.frame (stored_setUploads fun k p hp b => ?_) rfl rfl rfl
  obtain ⟨-, up', hup'⟩ := hw.uploads.part k p hp
  unfold Meter.partIn
  rw [Table.lookup_insert, if_neg]
  intro e
  rw [e, hnew] at hup'
  cases hup'

theorem Accounted.setState (h : Accounted s) {id : UploadId} {up : MultipartUpload}
    (hu : s.multipart[id.bytes]? = some up) (state : MultipartUploadState) :
    Accounted { s with multipart := s.multipart.insert id.bytes { up with state := state } } := by
  refine h.frame (stored_setUploads fun k p hp b => ?_) rfl rfl rfl
  unfold Meter.partIn
  rw [Table.lookup_insert]
  by_cases e : p.uploadId.bytes = id.bytes
  · rw [if_pos e, e, hu]
    rfl
  · rw [if_neg e]

theorem elim_partSize (o : Option UploadedPart) : (o.elim 0 fun p => p.size.toNat) = (partSize? o).toNat := by
  cases o <;> rfl

theorem Accounted.putPart (h : Accounted s) (hw : WF s) {part : UploadedPart}
    {previous : Option UploadedPart} (hret : Returns (putMultipartPartTx part) s previous s') :
    Accounted s' := by
  obtain ⟨up, b, proposed, t, hu, -, hb, rfl, hp, -, ht, rfl⟩ := putMultipartPartTx_returns hret
  refine h.parts hw hb rfl rfl rfl rfl ?_ ?_ ht
  · rw [checkedReplace_eq hp]
    exact (((holds_self _).sub (holds_self _)).add (holds_self _)).congr (by ring)
  · intro b'
    have hswap := Table.swap_insert s.parts (partKey part.uploadId part.number) part
      (Meter.partIn s.multipart b') fun p => p.size.toNat
    -- the replaced part was a part of the same upload
    have hprev : ∀ p, s.parts[partKey part.uploadId part.number]? = some p →
        (Meter.partIn s.multipart b' p = true ↔ b' = up.bucketId) := by
      intro p hp
      have e := (partKey_inj (hw.uploads.part _ p hp).1).1
      exact partIn_eq (by rw [← e]; exact hu) b'
    have hnew : ∀ p, some part = some p → (Meter.partIn s.multipart b' p = true ↔ b' = up.bucketId) := by
      rintro p ⟨⟩
      exact partIn_eq hu b'
    rw [elim_share _ hprev, elim_share _ hnew, elim_partSize, Option.elim_some] at hswap
    simp only [Meter.stored]
    split_ifs at hswap ⊢ <;> omega

/-- The listed parts of an upload are the parts that go with it. -/
theorem sum_listParts (hw : WF s) {id : UploadId} {up : MultipartUpload} (hu : s.multipart[id.bytes]? = some up)
    (b : BucketId) :
    ((s.parts.toList.filter fun r => !decide (r.2.uploadId ≠ id)).map fun r =>
        Table.share (Meter.partIn s.multipart b) (fun p => p.size.toNat) r.2).sum =
      if b = up.bucketId then ((s.listParts id).map fun p => p.size.toNat).sum else 0 := by
  have hlist : s.parts.toList.filter (fun r => !decide (r.2.uploadId ≠ id)) =
      s.parts.rowsIn id.bytes (prefixSuccessor id.bytes) := by
    refine List.filter_congr ?_
    rintro ⟨k, p⟩ hmem
    obtain ⟨rfl, -⟩ := hw.uploads.part k p (Std.ExtTreeMap.mem_toList_iff_getElem?_eq_some.mp hmem)
    rw [Bool.eq_iff_iff]
    simp only [ne_eq, decide_not, Bool.not_not, decide_eq_true_eq]
    exact inRange_partKey.symm
  have hshare : ∀ r ∈ s.parts.rowsIn id.bytes (prefixSuccessor id.bytes),
      Table.share (Meter.partIn s.multipart b) (fun p => p.size.toNat) r.2 =
        if b = up.bucketId then r.2.size.toNat else 0 := by
    rintro ⟨k, p⟩ hmem
    obtain ⟨hp, hin⟩ := Table.mem_rowsIn.mp hmem
    obtain ⟨rfl, -⟩ := hw.uploads.part k p hp
    have hid : p.uploadId = id := inRange_partKey.mp hin
    exact if_congr (partIn_eq (by rw [hid]; exact hu) b) rfl rfl
  rw [hlist, List.map_congr_left hshare, Catalog.listParts, List.map_map]
  by_cases hb : b = up.bucketId
  · simp only [if_pos hb]
    rfl
  · simp only [if_neg hb]
    exact List.sum_eq_zero fun x hx => by
      obtain ⟨_, -, rfl⟩ := List.mem_map.mp hx
      rfl

theorem Accounted.removeUpload (h : Accounted s) (hw : WF s) {id : UploadId} {requireCompleting : Bool}
    {at_ : DateTime} {res : MultipartCleanupResult}
    (hret : Returns (removeMultipartTx env id requireCompleting at_) s res s') : Accounted s' := by
  obtain ⟨up, bytes, t, e, hu, -, hbytes, hle, -, ht, rfl⟩ := removeMultipartTx_returns hret
  obtain ⟨b, hb⟩ := hw.uploadOwned _ _ hu
  have hparts : (s.listParts id).foldl (fun t part => t.erase (partKey id part.number)) s.parts =
      s.parts.filter fun _ p => decide (p.uploadId ≠ id) := hw.uploads.erase_partsOf id
  rw [hparts]
  refine h.parts hw hb rfl rfl rfl rfl ?_ ?_ ht
  · exact ((holds_self _).sub (holds_self _)).congr (by ring)
  · intro b'
    have hsum := Table.sumOver_filter s.parts (fun _ p => decide (p.uploadId ≠ id))
      (Meter.partIn s.multipart b') fun p => p.size.toNat
    rw [sum_listParts hw hu, ← totalSize_some hbytes] at hsum
    -- the uploads of the parts that stay are still there
    have hkeep : Table.sumOver (s.parts.filter fun _ p => decide (p.uploadId ≠ id))
          (Meter.partIn (s.multipart.erase id.bytes) b') (fun p => p.size.toNat) =
        Table.sumOver (s.parts.filter fun _ p => decide (p.uploadId ≠ id)) (Meter.partIn s.multipart b')
          fun p => p.size.toNat := by
      refine Table.sumOver_congr fun k p hp => ?_
      rw [Std.ExtTreeMap.getElem?_filter', Option.filter_eq_some_iff] at hp
      have hne := of_decide_eq_true hp.2
      unfold Table.share Meter.partIn
      rw [Table.lookup_erase, if_neg fun e => hne (Id.bytes_inj.mp e)]
    simp only [Meter.stored, hkeep]
    split_ifs at hsum ⊢ <;> omega

end Uploads

/-! ## Buckets -/

section Buckets

variable {b : Bucket}

theorem stored_buckets (s : Catalog) (b : BucketId) (m : Meter) {buckets : Table Bytes Bucket}
    {names : Table String Bucket} {usage : Table Bytes BucketUsage} {rules : Table Bytes LifecycleRule}
    {t : Table String UInt64} {e : Table UInt64 MutationEvent} :
    m.stored { s with
      buckets := buckets, bucketNames := names, bucketUsage := usage, lifecycleRules := rules
      counters := t, mutationEvents := e } b = m.stored s b := by
  cases m <;> rfl

theorem Accounted.updateBucket (h : Accounted s) {id : BucketId} {update : Bucket → Except MetadataError Bucket}
    (hret : Returns (updateBucketTx id update) s b s') : Accounted s' := by
  obtain ⟨old, hold, -, rfl⟩ := updateBucketTx_returns hret
  refine h.frame (fun b m => stored_buckets s b m) rfl rfl ?_
  have hins := Table.sumOver_insert s.buckets (bucketKey id) b (fun _ => true) fun _ => 1
  rw [show s.buckets[bucketKey id]? = some old from hold] at hins
  rw [Table.countOf_eq_sumOver, Table.countOf_eq_sumOver]
  exact Nat.add_right_cancel hins

theorem Accounted.createBucket (h : Accounted s) (hw : WF s) {u : Unit}
    (hret : Returns (createBucketTx env b) s u s') : Accounted s' := by
  obtain ⟨-, hid, -, t, e, ht, rfl⟩ := createBucketTx_returns hret
  have hnone : s.bucketUsage[bucketKey b.id]? = none := by
    have hrow := hw.usage (bucketKey b.id)
    rw [hid, Option.isSome_none, Option.isSome_eq_false_iff, Option.isNone_iff_eq_none] at hrow
    exact hrow
  refine ⟨?_, ?_, ?_, ?_⟩
  · intro b' m
    rw [stored_buckets s b' m, ← h.bucket b' m]
    unfold Catalog.readBucketUsage
    rw [Table.lookup_insert]
    split_ifs with hk
    · rw [hk, hnone]
      rfl
    · rfl
  · intro m
    have hins := Table.sumOver_insert s.bucketUsage (bucketKey b.id) .zero (fun _ => true) fun u => (m.of u).toNat
    rw [hnone] at hins
    have hzero : (m.of .zero).toNat = 0 := by cases m <;> rfl
    rw [show countIn t m.counter = _ from ht.same (by cases m <;> decide), h.total m]
    simp only [Option.elim_none, Table.share, if_true, hzero] at hins
    exact hins.symm
  · exact (ht.same (by decide)).trans (h.physical.trans (ht.same (by decide)).symm)
  · have hins := Table.sumOver_insert s.buckets (bucketKey b.id) b (fun _ => true) fun _ => 1
    have h1 := ht .buckets
    have h2 := h.buckets
    rw [hid] at hins
    rw [Table.countOf_eq_sumOver] at h2 ⊢
    simp only [only, if_true, Option.elim_none, Table.share] at h1 hins ⊢
    omega

/-- A bucket that reports no versions has none. -/
theorem Accounted.no_versions (h : Accounted s) {b : BucketId} (hv : (s.readBucketUsage b).versions = 0)
    {k : Bytes} {r : ObjectVersionRecord} (hr : s.versions[k]? = some r) : r.bucketId ≠ b := by
  intro hb
  have hstored := h.bucket b .versions
  rw [show Meter.of .versions (s.readBucketUsage b) = 0 from hv] at hstored
  have hle := Table.share_le_sumOver (p := fun r : ObjectVersionRecord => decide (r.bucketId = b))
    (f := fun _ => 1) hr
  simp only [Meter.stored, Table.countOf_eq_sumOver, Table.share, hb, decide_true, if_true] at hstored hle
  have hz : (0 : UInt64).toNat = 0 := rfl
  omega

theorem sumOver_eq_zero {V : Type} {t : Table Bytes V} {p : V → Bool} {f : V → Nat}
    (h : ∀ (k : Bytes) (v : V), t[k]? = some v → p v = false) : t.sumOver p f = 0 := by
  have hz : t.sumOver p f = t.sumOver (fun _ => false) f := by
    refine Table.sumOver_congr fun k v hv => ?_
    unfold Table.share
    rw [h k v hv]
  rw [hz]
  simp [Table.sumOver]

theorem Accounted.deleteBucket (h : Accounted s) (hw : WF s) {name : BucketName} {at_ : DateTime}
    (hret : Returns (deleteBucketTx env name at_) s b s') : Accounted s' := by
  obtain ⟨hb, hver, hmp, t, e, rules, ht, rfl⟩ := deleteBucketTx_returns hret
  obtain ⟨-, hrow⟩ := hw.buckets.name _ _ hb
  have hscan : s.multipartOrder.rowsIn (bucketKey b.id) (prefixSuccessor (bucketKey b.id)) = [] := by
    simpa [Catalog.hasMultipart] using hmp
  have hvers : ∀ (k : Bytes) (r : ObjectVersionRecord), s.versions[k]? = some r → decide (r.bucketId = b.id) = false :=
    fun k r hr => decide_eq_false (h.no_versions hver hr)
  have hobs : ∀ (k : Bytes) (m : ObjectMetadata), s.objects[k]? = some m → decide (m.bucketId = b.id) = false := by
    intro k m hm
    obtain ⟨-, n, hmrow⟩ := hw.pointers.object k m hm
    exact hvers _ _ hmrow
  have hparts : ∀ (k : Bytes) (p : UploadedPart), s.parts[k]? = some p →
      Meter.partIn s.multipart b.id p = false := by
    intro k p hp
    obtain ⟨-, up, hup⟩ := hw.uploads.part k p hp
    have hne := hw.uploads.no_upload_of_scan hscan hup
    rw [← Bool.not_eq_true, partIn_eq hup]
    exact hne.symm
  have hzero : ∀ m : Meter, m.stored s b.id = 0 := by
    intro m
    cases m <;> simp only [Meter.stored, Table.countOf_eq_sumOver]
    · exact sumOver_eq_zero hobs
    · exact sumOver_eq_zero hobs
    · exact sumOver_eq_zero hvers
    · exact sumOver_eq_zero hvers
    · exact sumOver_eq_zero hparts
  have husage := hw.usageRow hrow
  refine ⟨?_, ?_, ?_, ?_⟩
  · intro b' m
    rw [stored_buckets s b' m]
    unfold Catalog.readBucketUsage
    rw [Table.lookup_erase]
    split_ifs with hk
    · rw [bucketKey_inj hk, hzero m]
      cases m <;> rfl
    · exact h.bucket b' m
  · intro m
    have hers := Table.sumOver_erase s.bucketUsage (bucketKey b.id) (fun _ => true) fun u => (m.of u).toNat
    have hu : (m.of (s.readBucketUsage b.id)).toNat = 0 := by rw [h.bucket, hzero]
    rw [husage] at hers
    rw [show countIn t m.counter = _ from ht.same (by cases m <;> decide), h.total m]
    simp only [Option.elim_some, Table.share, if_true, hu] at hers
    exact hers.symm
  · exact (ht.same (by decide)).trans (h.physical.trans (ht.same (by decide)).symm)
  · have hers := Table.sumOver_erase s.buckets (bucketKey b.id) (fun _ => true) fun _ => 1
    have h1 := ht .buckets
    have h2 := h.buckets
    rw [hrow] at hers
    rw [Table.countOf_eq_sumOver] at h2 ⊢
    simp only [only, if_true, Option.elim_some, Table.share] at h1 hers ⊢
    omega

end Buckets

end RecordStore.Metadata

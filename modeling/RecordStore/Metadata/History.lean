import RecordStore.Metadata.Listing

/-!
# Metadata.History — versions and the current pointer of a key

A key that has versions has exactly one current pointer, and one entry of its version listing is the
latest, as long as no ordinary delete was applied to the key while its bucket had versioning disabled
and the key had non-null versions.  Versioning can be disabled again after it was suspended, and such
a delete then removes the pointer and leaves the older versions.
-/

namespace RecordStore.Metadata

open RecordStore.Lib RecordStore.Core

variable {s s' : Catalog} {env : Env} {c : MetadataCommand} {bucket : BucketId} {key : ObjectKey}

/-! ## Pointers and versions of a key -/

/-- The key has a row in `VERSIONS`. -/
def HasVersion (s : Catalog) (bucket : BucketId) (key : ObjectKey) : Prop :=
  ∃ (id : Bytes) (r : ObjectVersionRecord), s.versions[id]? = some r ∧ r.matchesKey bucket key

/-- The key has a row in `OBJECTS` or in `MARKERS`. -/
def HasPointer (s : Catalog) (bucket : BucketId) (key : ObjectKey) : Prop :=
  ∃ v, s.currentVersion (objectKey bucket key) = some v

/-- The command is an ordinary delete of the key that leaves non-null versions without a pointer. -/
def StrandsHistory (s : Catalog) (bucket : BucketId) (key : ObjectKey) (c : MetadataCommand) : Prop :=
  ∃ nm b, c = .deleteObject bucket key nm ∧ s.readBucket bucket = some b ∧ b.versioning = .disabled ∧
    ∃ (id : Bytes) (r : ObjectVersionRecord), s.versions[id]? = some r ∧ r.matchesKey bucket key ∧
      r.isNull = false

theorem hasPointer_of_object {m : ObjectMetadata} (h : s.objects[objectKey bucket key]? = some m) :
    HasPointer s bucket key := by
  refine ⟨m.versionId, ?_⟩
  unfold Catalog.currentVersion
  rw [h]

theorem hasPointer_of_marker {m : DeleteMarker} (h : s.markers[objectKey bucket key]? = some m) :
    HasPointer s bucket key := by
  unfold HasPointer Catalog.currentVersion
  cases s.objects[objectKey bucket key]? with
  | some m' => exact ⟨m'.versionId, rfl⟩
  | none => exact ⟨m.versionId, by rw [h]; rfl⟩

/-- A pointer moves with its two rows. -/
theorem HasPointer.congr (ho : s'.objects[objectKey bucket key]? = s.objects[objectKey bucket key]?)
    (hm : s'.markers[objectKey bucket key]? = s.markers[objectKey bucket key]?) (h : HasPointer s bucket key) :
    HasPointer s' bucket key := by
  unfold HasPointer Catalog.currentVersion at *
  rw [ho, hm]
  exact h

/-- The version a pointer names is a version of its key. -/
theorem Pointers.current (h : Pointers s.versions s.objects s.markers) {v : VersionId}
    (hv : s.currentVersion (objectKey bucket key) = some v) :
    ∃ r, s.versions[v.bytes]? = some r ∧ r.versionId = v ∧ r.matchesKey bucket key := by
  unfold Catalog.currentVersion at hv
  cases ho : s.objects[objectKey bucket key]? with
  | some m =>
    rw [ho] at hv
    obtain rfl := Option.some.inj hv
    obtain ⟨hk, n, hrow⟩ := h.object _ m ho
    obtain ⟨hb, hkey⟩ := objectKey_inj hk
    exact ⟨_, hrow, rfl, hb.symm, hkey.symm⟩
  | none =>
    rw [ho] at hv
    obtain ⟨m, hm, rfl⟩ := Option.map_eq_some_iff.mp hv
    obtain ⟨hk, n, hrow⟩ := h.marker _ m hm
    obtain ⟨hb, hkey⟩ := objectKey_inj hk
    exact ⟨_, hrow, rfl, hb.symm, hkey.symm⟩

theorem hasVersion_of_pointer (h : WF s) (hp : HasPointer s bucket key) : HasVersion s bucket key := by
  obtain ⟨v, hv⟩ := hp
  obtain ⟨r, hr, -, hm⟩ := h.pointers.current hv
  exact ⟨_, r, hr, hm⟩

/-! ## One command -/

section Step

/-- A publication under a key leaves every other key's history as it was. -/
theorem hasVersion_of_insert {removed : Option ObjectVersionRecord} {r : ObjectVersionRecord} {k : Bytes}
    {t : Table Bytes ObjectVersionRecord}
    (h : ∃ (id : Bytes) (r' : ObjectVersionRecord),
      ((dropVersion removed t).insert k r)[id]? = some r' ∧ r'.matchesKey bucket key)
    (hne : ¬ r.matchesKey bucket key) :
    ∃ (id : Bytes) (r' : ObjectVersionRecord), t[id]? = some r' ∧ r'.matchesKey bucket key := by
  obtain ⟨id, r', hr', hm⟩ := h
  rcases Table.of_lookup_insert hr' with ⟨-, rfl⟩ | ⟨-, hr'⟩
  · exact absurd hm hne
  · exact ⟨id, r', lookup_dropVersion hr', hm⟩

/-- After an ordinary delete in a bucket without versioning only non-null versions are left. -/
theorem nonnull_of_dropNull (h : WF s) {removed : Option ObjectVersionRecord}
    (hnull : NullVersion s bucket key removed) {id : Bytes} {r : ObjectVersionRecord}
    (hr : (dropVersion removed s.versions)[id]? = some r) (hm : r.matchesKey bucket key) : r.isNull = false := by
  by_contra hn
  obtain ⟨rfl, rfl⟩ := hm
  have hrow := ((h.index.dropNull hnull).null_iff _ _).mpr ⟨r, hr, Bool.not_eq_false _ ▸ hn, rfl⟩
  rw [Table.lookup_erase_self] at hrow
  cases hrow

/-- A command that does not strand the key's history leaves it with a pointer. -/
theorem Applied.pointed (happ : Applied env s c s') (hw : WF s) (hno : ¬ StrandsHistory s bucket key c)
    (h : HasVersion s bucket key → HasPointer s bucket key) (hv : HasVersion s' bucket key) :
    HasPointer s' bucket key := by
  rcases happ.history hw with hsame | ⟨m, lock, origin, res, rfl, hret⟩ | ⟨b, k, nm, res, rfl, hret⟩ |
    ⟨b, k, version, release, r, res, rfl, hr, hm, hret⟩ |
    ⟨b, k, version, requested, release, updated, rfl, hret⟩
  · unfold HasVersion at hv
    rw [hsame.versions] at hv
    exact (h hv).congr (by rw [hsame.objects]) (by rw [hsame.markers])
  · obtain ⟨_, isNull, removed, u', -, -, -, -, -, -, -, -, t, e, -, rfl⟩ := putObjectTx_returns hret
    by_cases hkey : objectKey bucket key = objectKey m.bucketId m.key
    · refine hasPointer_of_object (m := m) ?_
      rw [hkey]
      exact Table.lookup_insert_self _ _ _
    · refine (h (hasVersion_of_insert hv ?_)).congr ?_ ?_
      · rintro ⟨rfl, rfl⟩
        exact hkey rfl
      · exact (Table.lookup_insert _ _ _ _).trans (if_neg hkey)
      · exact (Table.lookup_erase _ _ _).trans (if_neg hkey)
  · obtain ⟨record, s₁, r₁, hrec, hdel, t, e, -, rfl⟩ := deleteObjectTx_returns hret
    by_cases hd : record.versioning = .disabled
    · rw [hd] at hdel
      obtain ⟨removed, hnull, -, rfl, t', -, rfl⟩ := deleteCurrent_disabled hdel
      obtain ⟨id, r, hr, hm⟩ := hv
      by_cases hkey : objectKey bucket key = objectKey b k
      · -- what is left is non-null, so the delete would have stranded it
        obtain ⟨rfl, rfl⟩ := objectKey_inj hkey
        exact absurd ⟨nm, record, rfl, hrec, hd, id, r, lookup_dropVersion hr, hm,
          nonnull_of_dropNull hw hnull hr hm⟩ hno
      · refine (h ⟨id, r, lookup_dropVersion hr, hm⟩).congr ?_ ?_
        · exact (Table.lookup_erase _ _ _).trans (if_neg hkey)
        · exact (Table.lookup_erase _ _ _).trans (if_neg hkey)
    · obtain ⟨isNull, removed, -, -, -, rfl, t', -, rfl⟩ := deleteCurrent_marker hd hdel
      by_cases hkey : objectKey bucket key = objectKey b k
      · refine hasPointer_of_marker (m := newMarker b k nm) ?_
        rw [hkey]
        exact Table.lookup_insert_self _ _ _
      · refine (h (hasVersion_of_insert hv ?_)).congr ?_ ?_
        · rintro ⟨rfl, rfl⟩
          exact hkey rfl
        · exact (Table.lookup_erase _ _ _).trans (if_neg hkey)
        · exact (Table.lookup_insert _ _ _ _).trans (if_neg hkey)
  · have hid := hw.index.key _ _ hr
    rw [hid] at hr
    obtain ⟨-, ob, mk, u', cl, t, e, hor, rfl⟩ := removeExactVersion_returns hret
    obtain ⟨id, r', hr', hm'⟩ := hv
    have hold : HasVersion s bucket key := by
      refine ⟨id, r', ?_, hm'⟩
      exact (Table.of_lookup_erase hr').2
    rcases hor with ⟨-, rfl, rfl, -⟩ | ⟨-, rfl, rfl, -⟩
    · by_cases hkey : objectKey bucket key = objectKey b k
      · obtain ⟨rfl, rfl⟩ := objectKey_inj hkey
        -- the newest version that is left takes the pointer
        cases hl : (s.removeVersion r).latestVersion bucket key with
        | none =>
          have hindex := hw.index.removeExact hr hm
          exact absurd hm' (latestVersion_none (s := { s.removeVersion r with
            nullVersions := clearNullRow (objectKey bucket key) r.versionId r s.nullVersions }) hindex hl hr')
        | some next =>
          cases next with
          | object m n => exact hasPointer_of_object (m := m) (Table.lookup_insert_self _ _ _)
          | deleteMarker m n => exact hasPointer_of_marker (m := m) (Table.lookup_insert_self _ _ _)
      · exact (h hold).congr (lookup_publishObject_of_ne hkey) (lookup_publishMarker_of_ne hkey)
    · exact (h hold).congr rfl rfl
  · obtain ⟨_, _, _, _, _, -, -, -, -, -, -, -, rfl⟩ := putObjectLockTx_returns hret
    exact (h hv).congr rfl rfl

end Step

/-! ## The listing of a key -/

section Latest

/-- Exactly one element of a list without repetitions satisfies the predicate. -/
theorem filter_length_one {α : Type} [DecidableEq α] {l : List α} {p : α → Bool} {a : α} (hn : l.Nodup)
    (ha : a ∈ l) (hp : p a = true) (hu : ∀ x ∈ l, p x = true → x = a) : (l.filter p).length = 1 := by
  have hcongr : l.filter p = l.filter (· == a) := by
    refine List.filter_congr fun x hx => ?_
    rw [Bool.eq_iff_iff, beq_iff_eq]
    exact ⟨hu x hx, fun e => e ▸ hp⟩
  rw [hcongr, ← List.count_eq_length_filter]
  exact List.count_eq_one_of_mem hn ha

/-- The versions of a key lie in the range of the key taken as a prefix. -/
theorem inRange_objectPrefix (r : ObjectVersionRecord) :
    InRange (objectPrefix r.bucketId r.key.value) (prefixSuccessor (objectPrefix r.bucketId r.key.value))
      (versionOrderKey r) := by
  have e : versionOrderKey r = objectPrefix r.bucketId r.key.value ++
      (0 :: (beBytes 8 (0xffffffffffffffff - r.createdAt.clampedMicros : UInt64).toNat ++ r.versionId.bytes)) := by
    simp [versionOrderKey, exactVersionPrefix, objectKey]
  rw [e]
  exact inRange_append (.inr (by simp))

/-- The request for every version whose key starts with this one, in one page. -/
def allVersions (bucket : BucketId) (key : ObjectKey) (limit : Nat) : ListObjectVersionsRequest where
  bucketId := bucket
  keyPrefix := key.value
  keyMarker := none
  versionIdMarker := none
  limit := limit

/-- The entries of the key that a page marks as the latest. -/
def latestOf (page : ObjectVersionPage) (key : ObjectKey) : List ListedObjectVersion :=
  page.versions.filter fun entry => decide (entry.record.key = key) && entry.isLatest

/-- The page that holds every version of a key with a pointer marks exactly one as the latest. -/
theorem latest_of_pointer (h : WF s) (hp : HasPointer s bucket key) {limit : Nat}
    (hlimit : s.versionOrder.toList.length ≤ limit) :
    ∃ page, listObjectVersions s (allVersions bucket key limit) = .ok page ∧ (latestOf page key).length = 1 := by
  obtain ⟨v, hv⟩ := hp
  obtain ⟨r, hr, rfl, rfl, rfl⟩ := h.pointers.current hv
  generalize hrows : s.versionOrder.rowsIn (objectPrefix r.bucketId r.key.value)
    (prefixSuccessor (objectPrefix r.bucketId r.key.value)) = rows
  have hlookup : ∀ row ∈ rows, s.versionOrder[row.1]? = some row.2 := by
    intro row hrow
    rw [← hrows] at hrow
    exact (Table.mem_rowsIn.mp hrow).1
  have hlen : rows.length ≤ limit := by
    rw [← hrows]
    exact (List.length_filter_le _ _).trans hlimit
  have hmem : versionRow r ∈ rows := by
    rw [← hrows]
    exact Table.mem_rowsIn.mpr ⟨(h.index.order_iff _ _).mpr ⟨r, hr, rfl⟩, inRange_objectPrefix r⟩
  have hpos : limit ≠ 0 := by
    have := List.length_pos_of_mem hmem
    omega
  have hnodup : rows.Nodup := by
    rw [← hrows]
    exact (Table.nodup_toList _).filter _
  obtain ⟨rs, rfl, hall, hresolve⟩ := h.index.resolve r.bucketId rows hlookup
  have heq : ∀ r' ∈ rs, r'.versionId = r.versionId → r' = r := fun r' hr' e => h.index.eq_of_key hr (hall r' hr') e
  refine ⟨{ versions := rs.map (listed s r.bucketId), nextKeyMarker := none, nextVersionIdMarker := none }, ?_, ?_⟩
  · simp only [listObjectVersions, allVersions, versionStart, hpos, hrows, ne_eq, if_false, bind,
      Except.bind]
    rw [List.take_of_length_le (by omega)]
    rw [hresolve]
    rw [List.length_map] at hlen
    simp [versionPage, hlen, pure, Except.pure]
  · rw [latestOf, List.filter_map, List.length_map]
    refine filter_length_one hnodup.of_map (a := r) ?_ ?_ ?_
    · obtain ⟨r', hr', e⟩ := List.mem_map.mp hmem
      rw [← heq r' hr' (versionOrderKey_inj (congrArg Prod.fst e))]
      exact hr'
    · simp [listed, hv]
    · intro r' hr' hlatest
      simp only [listed, Function.comp_apply, Bool.and_eq_true, decide_eq_true_eq] at hlatest
      obtain ⟨hk, hcur⟩ := hlatest
      rw [of_decide_eq_true hk, hv, Option.some.injEq] at hcur
      exact heq r' hr' hcur.symm

end Latest

/-! ## Every run -/

section Runs

/-- The key has one pointer, which names one of its versions, and its listing has one latest entry. -/
structure Pointed (s : Catalog) (bucket : BucketId) (key : ObjectKey) : Prop where
  one : (s.objects[objectKey bucket key]?).isSome ≠ (s.markers[objectKey bucket key]?).isSome
  names : ∃ v r, s.currentVersion (objectKey bucket key) = some v ∧ s.versions[v.bytes]? = some r ∧
    r.versionId = v ∧ r.matchesKey bucket key
  latest : ∀ limit, s.versionOrder.toList.length ≤ limit →
    ∃ page, listObjectVersions s (allVersions bucket key limit) = .ok page ∧ (latestOf page key).length = 1

theorem WF.pointed (h : WF s) (hp : HasPointer s bucket key) : Pointed s bucket key where
  one := by
    obtain ⟨v, hv⟩ := hp
    unfold Catalog.currentVersion at hv
    rcases h.pointers.exclusive (objectKey bucket key) with ho | hm
    · rw [ho] at hv
      obtain ⟨m, hm, -⟩ := Option.map_eq_some_iff.mp hv
      simp [ho, hm]
    · cases ho : s.objects[objectKey bucket key]? with
      | some m => simp [hm]
      | none => simp [ho, hm] at hv
  names := by
    obtain ⟨v, hv⟩ := hp
    obtain ⟨r, hr, hid, hm⟩ := h.pointers.current hv
    exact ⟨v, r, hv, hr, hid, hm⟩
  latest _ hlimit := latest_of_pointer h hp hlimit

theorem pointer_run {cmds : List MetadataCommand} (hf : FreshVersions cmds)
    (hno : ∀ before c, before ++ [c] <+: cmds → ¬ StrandsHistory (run env before) bucket key c) :
    HasVersion (run env cmds) bucket key → HasPointer (run env cmds) bucket key := by
  induction cmds using List.reverseRecOn with
  | nil =>
    rintro ⟨id, r, hr, -⟩
    cases (Table.lookup_empty id).symm.trans hr
  | append_singleton cmds c ih =>
    have hih := ih hf.of_append fun before c' hpre => hno before c' (hpre.trans (List.prefix_append cmds [c]))
    exact run_step (P := fun s => HasVersion s bucket key → HasPointer s bucket key) hf hih
      fun s' hs _ happ => happ.pointed hs.wf (hno cmds c (List.prefix_refl _)) hih

/-- Every pointer names a version of its key, a key without versions has none, and a key with versions
has exactly one unless an ordinary delete stranded its history. -/
theorem history_pointed_unless_stranded (env : Env) (cmds : List MetadataCommand) (hf : FreshVersions cmds)
    (bucket : BucketId) (key : ObjectKey) :
    (HasPointer (run env cmds) bucket key → Pointed (run env cmds) bucket key) ∧
    (¬ HasVersion (run env cmds) bucket key → (run env cmds).objects[objectKey bucket key]? = none ∧
      (run env cmds).markers[objectKey bucket key]? = none) ∧
    ((∀ before c, before ++ [c] <+: cmds → ¬ StrandsHistory (run env before) bucket key c) →
      HasVersion (run env cmds) bucket key → Pointed (run env cmds) bucket key) := by
  obtain ⟨hs, -⟩ := sound_run env cmds hf
  refine ⟨hs.wf.pointed, fun hnone => ⟨?_, ?_⟩, fun hno hv => hs.wf.pointed (pointer_run hf hno hv)⟩
  · by_contra ho
    obtain ⟨m, hm⟩ := Option.ne_none_iff_exists'.mp ho
    exact hnone (hasVersion_of_pointer hs.wf (hasPointer_of_object hm))
  · by_contra hk
    obtain ⟨m, hm⟩ := Option.ne_none_iff_exists'.mp hk
    exact hnone (hasVersion_of_pointer hs.wf (hasPointer_of_marker hm))

/-- An object written under versioning, versioning suspended and then disabled, and a delete. -/
def Sample.stranded : List MetadataCommand :=
  [.createBucket (Sample.bucket .enabled none), .putObject (Sample.object 10 20 5) none .direct,
    .setBucketVersioning (.ofNat 1) .suspended, .setBucketVersioning (.ofNat 1) .disabled,
    .deleteObject (.ofNat 1) Sample.key ⟨.ofNat 21, .epoch⟩]

/-- The version is still there, and the key has neither pointer. -/
theorem history_stranded :
    FreshVersions Sample.stranded ∧ HasVersion (run Sample.env Sample.stranded) (.ofNat 1) Sample.key ∧
      (run Sample.env Sample.stranded).objects[objectKey (.ofNat 1) Sample.key]? = none ∧
      (run Sample.env Sample.stranded).markers[objectKey (.ofNat 1) Sample.key]? = none := by
  refine ⟨by decide, ⟨Id.bytes (Id.ofNat 20 : VersionId), .object (Sample.object 10 20 5) false, ?_, ?_⟩, ?_, ?_⟩
  · decide +kernel
  · decide +kernel
  · decide +kernel
  · decide +kernel

/-- An overwritten object has one pointer. -/
theorem history_pointed_unless_stranded_overwrite :
    Pointed (run Sample.env Sample.overwrite) (.ofNat 1) Sample.key := by
  refine (history_pointed_unless_stranded Sample.env Sample.overwrite (by decide) (.ofNat 1) Sample.key).2.2 ?_
    ⟨Id.bytes (Id.ofNat 21 : VersionId), .object (Sample.object 11 21 7) true, by decide, by decide⟩
  rintro before c hpre ⟨nm, b, rfl, -⟩
  have hmem := hpre.subset (List.mem_append_right before (List.mem_singleton_self _))
  simp [Sample.overwrite] at hmem

end Runs

end RecordStore.Metadata

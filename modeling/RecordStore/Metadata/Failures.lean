import RecordStore.Metadata.Retention

/-!
# Metadata.Failures — which failures a command can end in

Panics happen only in a build with overflow checks, and most commands raise only plain errors: about
storage, existence, conflicts and quotas.  Two failures would show that the catalog disagrees with itself:
an unchecked subtraction that underflows, and an index row that names a version that is not there.  `Quiet`
says that a set of failures contains none but these two, and `Silent` that it does not contain them either.
A command avoids such a set in every state, if the set is silent or the catalog is sound, unless it checks a
lock, the clock or a rule; the lemma of such a command says what has to hold.
-/

namespace RecordStore.Metadata

open RecordStore.Lib RecordStore.Core Tx

/-- All errors but those about locks, the clock, the form of a rule and the encoding of a record. -/
def MetadataError.isPlain : MetadataError → Bool
  | .versionLocked _ | .clockWentBackwards | .objectLockNotEnabled | .objectLockNotEnabledAtCreation
  | .objectLockRequiresVersioning | .objectLockVersionNotFound | .objectLockChangeRefused _ | .invalidObjectLock _
  | .invalidLifecycleRule _ | .encoding _ => false
  | .directory _ | .bucketAlreadyExists | .bucketNotFound | .bucketNotEmpty | .multipartUploadNotFound
  | .multipartStateConflict | .quotaExceeded | .invalidVersioningTransition | .lifecycleRuleNotFound
  | .database _ _ | .task _ => true

/-- An index row that names a missing version. -/
def MetadataError.isInconsistent : MetadataError → Bool
  | .database _ reason => reason == "inconsistent index"
  | _ => false

/-- The set contains no plain error, inconsistent indexes apart, and a failed addition only if the build does
not check. -/
structure Quiet (env : Env) (bad : Failure → Prop) : Prop where
  add : env.overflowChecks = true → ¬ bad (.panicked .add)
  plain : ∀ e, e.isPlain = true → e.isInconsistent = false → ¬ bad (.refused e)

/-- Nor does it contain an inconsistent index, or a failed subtraction if the build checks. -/
structure Silent (env : Env) (bad : Failure → Prop) : Prop extends Quiet env bad where
  subtract : env.overflowChecks = true → ¬ bad (.panicked .subtract)
  index : ∀ operation, ¬ bad (.refused (inconsistentIndex operation))

/-- The clock is not behind its high-water mark by more than the tolerance. -/
def Catalog.clockAllows (s : Catalog) (release : LockRelease) : Bool :=
  let tolerance : Int := release.clockToleranceSeconds.toNat * 1000000
  (s.clock[clockWatermark]?).all fun m => max (m.toInt - tolerance) (-2 ^ 63) ≤ release.observedAt.timestampMicros.toInt

section Counted

variable {s : Catalog} {bucket : BucketId}

/-- A version that exists is counted in its bucket. -/
theorem Accounted.version_le (h : Accounted s) {k : Bytes} {r : ObjectVersionRecord}
    (hr : s.versions[k]? = some r) (hb : r.bucketId = bucket) :
    1 ≤ (s.readBucketUsage bucket).versions ∧
      bytesOf (some r) ≤ (s.readBucketUsage bucket).versionBytes := by
  have h1 := h.bucket bucket .versions
  have h2 := h.bucket bucket .versionBytes
  simp only [Meter.of, Meter.stored, Table.countOf_eq_sumOver] at h1 h2
  constructor
  · rw [UInt64.le_iff_toNat_le, h1]
    exact Table.le_sumOver (p := fun r => decide (r.bucketId = bucket)) (f := fun _ => 1) hr (decide_eq_true hb)
  · rw [UInt64.le_iff_toNat_le, h2]
    exact Table.le_sumOver (p := fun r => decide (r.bucketId = bucket))
      (f := fun r => (sizeOf? r.asObject).toNat) hr (decide_eq_true hb)

/-- A current object is counted in its bucket. -/
theorem Accounted.object_le (h : Accounted s) {k : Bytes} {m : ObjectMetadata} (hm : s.objects[k]? = some m)
    (hb : m.bucketId = bucket) :
    1 ≤ (s.readBucketUsage bucket).currentObjects ∧ m.size ≤ (s.readBucketUsage bucket).logicalBytes := by
  have h1 := h.bucket bucket .objects
  have h2 := h.bucket bucket .logical
  simp only [Meter.of, Meter.stored, Table.countOf_eq_sumOver] at h1 h2
  constructor
  · rw [UInt64.le_iff_toNat_le, h1]
    exact Table.le_sumOver (p := fun m => decide (m.bucketId = bucket)) (f := fun _ => 1) hm (decide_eq_true hb)
  · rw [UInt64.le_iff_toNat_le, h2]
    exact Table.le_sumOver (p := fun m => decide (m.bucketId = bucket)) (f := fun m => m.size.toNat) hm
      (decide_eq_true hb)

end Counted

namespace Quiet

variable {s : Catalog} {env : Env} {bad : Failure → Prop}

/-! ## Statements -/

section Statements

theorem refuse {α : Type} (h : Quiet env bad) {e : MetadataError} (he : e.isPlain = true)
    (hc : e.isInconsistent = false) : Avoids bad (refuse e : CatalogTx α) s :=
  avoids_throw.mpr (h.plain e he hc)

theorem check (h : Quiet env bad) {c : Prop} [Decidable c] {e : MetadataError} (he : e.isPlain = true)
    (hc : e.isInconsistent = false) : Avoids bad (Tx.ensure c (.refused e) : CatalogTx Unit) s :=
  avoids_ensure.mpr fun _ => h.plain e he hc

theorem lookup {α : Type} (h : Quiet env bad) {o : Option α} {e : MetadataError} (he : e.isPlain = true)
    (hc : e.isInconsistent = false) : Avoids bad (Tx.okOr o (.refused e) : CatalogTx α) s :=
  avoids_okOr.mpr fun _ => h.plain e he hc

theorem uncheckedAdd (h : Quiet env bad) {a b : UInt64} : Avoids bad (uncheckedAdd env a b) s := by
  simp only [Metadata.uncheckedAdd, avoids_bind, avoids_ensure, avoids_pure, implies_true, and_true]
  intro hc
  exact h.add (by_contra fun hoff => hc fun hon => absurd hon hoff)

theorem uncheckedSub {a b : UInt64} (h : Silent env bad ∨ b ≤ a) : Avoids bad (uncheckedSub env a b) s := by
  simp only [Metadata.uncheckedSub, avoids_bind, avoids_ensure, avoids_pure, implies_true, and_true]
  intro hc
  rcases h with h | h
  · exact h.subtract (by_contra fun hoff => hc fun hon => absurd hon hoff)
  · exact absurd (fun _ => h) hc

theorem adjustCounter (h : Quiet env bad) {name : String} {d : Int} : Avoids bad (adjustCounter name d) s := by
  simp (disch := decide) only [Metadata.adjustCounter, avoids_bind, avoids_read, h.check, avoids_modify, implies_true,
    and_self]

theorem journalEvent (h : Quiet env bad) {t : StorageEventType} {b : String} {k : Option ObjectKey}
    {v : Option VersionId} {n : Option UInt64} {at_ : DateTime} : Avoids bad (journalEvent env t b k v n at_) s := by
  simp (disch := decide) only [Metadata.journalEvent, avoids_bind, avoids_read, h.check, avoids_modify, implies_true,
    and_self]

theorem journalEvents (h : Quiet env bad) {α : Type} {t : α → StorageEventType} {b : α → String} {l : List α}
    {k : Option ObjectKey} {v : Option VersionId} {n : Option UInt64} {at_ : DateTime} :
    Avoids bad (l.forM fun x => Metadata.journalEvent env (t x) (b x) k v n at_) s :=
  avoids_forM (fun _ _ => h.journalEvent) l s

theorem queueCleanups {α : Type} {id : α → ObjectId} {l : List α} :
    Avoids bad (l.forM fun x => (modify (Catalog.queueCleanup (id x)) : CatalogTx Unit)) s :=
  avoids_forM (fun _ _ => avoids_modify) l s

/-- In a well-formed catalog the version behind a null row exists. -/
theorem takeNull {bucket : BucketId} {key : ObjectKey} (h : Silent env bad ∨ WF s) :
    Avoids bad (takeNull bucket key) s := by
  simp only [Metadata.takeNull, avoids_bind, avoids_read, avoids_modify, returns_read, returns_modify,
    true_and, and_imp]
  rintro id _ hid rfl _ _ rfl
  cases id with
  | none => exact avoids_pure
  | some id =>
    simp only [avoids_bind, avoids_read, avoids_okOr, avoids_pure, returns_read, and_imp, implies_true,
      and_true, true_and]
    rintro o _ rfl - hnone
    rcases h with h | h
    · exact h.index _
    · obtain ⟨r, hr, -⟩ := (h.index.null_iff _ _).mp hid.symm
      rw [hr] at hnone
      cases hnone

end Statements

/-! ## Checks of locks and of the clock -/

section Locks

/-- A replaced version that is not locked is removed quietly. -/
theorem removeReplaced {r : ObjectVersionRecord} {now : DateTime}
    (hl : ∀ block, (s.readObjectLock r.versionId).deletionBlockAt now = some block →
      ¬ bad (.refused (.versionLocked block))) : Avoids bad (removeReplaced r now) s := by
  simp only [Metadata.removeReplaced, assertUnlocked, avoids_bind, avoids_read, avoids_modify, returns_read,
    implies_true, and_true, true_and, and_imp]
  rintro state s₁ rfl rfl
  cases hb : (s₁.readObjectLock r.versionId).deletionBlockAt now with
  | none => exact avoids_pure
  | some block => exact avoids_throw.mpr (hl block hb)

theorem updateBucketTx (h : Quiet env bad) {id : BucketId} {update : Bucket → Except MetadataError Bucket} :
    Avoids bad (updateBucketTx id update) s ↔
      ∀ b e, s.readBucket id = some b → update b = .error e → ¬ bad (.refused e) := by
  simp (disch := decide) only [Metadata.updateBucketTx, avoids_bind, avoids_read, h.lookup, returns_read, returns_okOr,
    and_imp, true_and, forall_eq_apply_imp_iff, forall_eq]
  constructor
  · intro hall b e hb he
    have hb' := hall b hb
    rw [he] at hb'
    exact avoids_throw.mp hb'
  · intro hall b hb
    cases hupdate : update b with
    | error e => exact avoids_throw.mpr (hall b e hb hupdate)
    | ok b' => simp only [avoids_bind, avoids_modify, avoids_pure, implies_true, and_self]

theorem observeClock {release : LockRelease} :
    Avoids bad (observeClock release) s ↔ (s.clockAllows release = false → ¬ bad (.refused .clockWentBackwards)) := by
  simp only [Metadata.observeClock, avoids_bind, avoids_read, avoids_ensure, avoids_when, avoids_modify, returns_read,
    and_imp, implies_true, and_true, true_and, forall_eq_apply_imp_iff, forall_eq, Bool.not_eq_true]
  rfl

theorem observeClock_returns_iff {release : LockRelease} :
    (∃ u s', Returns (Metadata.observeClock release) s u s') ↔ s.clockAllows release = true := by
  simp only [Metadata.observeClock, returns_bind, returns_read, returns_ensure, returns_when, returns_modify]
  constructor
  · rintro ⟨_, _, _, _, ⟨rfl, rfl⟩, _, _, ⟨hc, rfl⟩, -⟩
    exact hc
  · intro hc
    by_cases hm : ((s.clock[clockWatermark]?).all fun m => decide (m < release.observedAt.timestampMicros)) = true
    · exact ⟨(), _, _, s, ⟨rfl, rfl⟩, (), s, ⟨hc, rfl⟩, .inl ⟨hm, rfl⟩⟩
    · exact ⟨(), s, _, s, ⟨rfl, rfl⟩, (), s, ⟨hc, rfl⟩, .inr ⟨hm, rfl⟩⟩

theorem enforceDeletable {version : VersionId} {release : LockRelease} :
    Avoids bad (enforceDeletable version release) s ↔
      ((s.readObjectLock version).isUnlocked = false →
        (s.clockAllows release = false → ¬ bad (.refused .clockWentBackwards)) ∧
        (s.clockAllows release = true → ∀ block,
          (s.readObjectLock version).deletionBlockAt release.observedAt = some block →
          ¬ (block.isBypassable = true ∧ release.bypassGovernance = true) →
            ¬ bad (.refused (.versionLocked block)))) := by
  simp only [Metadata.enforceDeletable, avoids_bind, avoids_read, avoids_ite, avoids_pure, observeClock, returns_read,
    and_imp, implies_true, true_and, forall_eq_apply_imp_iff, forall_eq, Bool.not_eq_true]
  constructor
  · intro hall hlocked
    obtain ⟨hclock, hblock⟩ := hall hlocked
    refine ⟨hclock, fun hallows block hb hby => ?_⟩
    obtain ⟨u, s', hret⟩ := observeClock_returns_iff.mpr hallows
    have hafter := hblock u s' hret
    rw [hb] at hafter
    exact avoids_throw.mp ((avoids_ite.mp hafter).2 hby)
  · intro hall hlocked
    obtain ⟨hclock, hblock⟩ := hall hlocked
    refine ⟨hclock, fun _ s' hret => ?_⟩
    have hallows := observeClock_returns_iff.mp ⟨_, _, hret⟩
    cases hb : (s.readObjectLock version).deletionBlockAt release.observedAt with
    | none => exact avoids_pure
    | some block =>
      exact avoids_ite.mpr ⟨fun _ => avoids_pure, fun hby => avoids_throw.mpr (hblock hallows block hb hby)⟩

end Locks

/-! ## Objects -/

section Objects

variable {bucket : BucketId} {key : ObjectKey}

/-- Hiding the current object of a key subtracts what was counted. -/
theorem hideCurrent (h : Quiet env bad) {current : Option ObjectMetadata} {u : BucketUsage}
    (hu : Silent env bad ∨ ∀ m, current = some m → 1 ≤ u.currentObjects ∧ m.size ≤ u.logicalBytes) :
    Avoids bad (hideCurrent env current u) s := by
  cases current with
  | none => exact avoids_pure
  | some m =>
    have h1 := hu.imp_right fun hu => (hu m rfl).1
    have h2 := hu.imp_right fun hu => (hu m rfl).2
    simp only [Metadata.hideCurrent, avoids_bind, uncheckedSub h1, uncheckedSub h2, h.adjustCounter, avoids_pure,
      implies_true, and_self]

/-- No version that a replacement removes is locked. -/
def Unlocked (s : Catalog) (bad : Failure → Prop) (bucket : BucketId) (key : ObjectKey) (now : DateTime) : Prop :=
  ∀ r block, NullVersion s bucket key (some r) → (s.readObjectLock r.versionId).deletionBlockAt now = some block →
    ¬ bad (.refused (.versionLocked block))

/-- In a well-formed catalog a null version carries no lock. -/
theorem unlocked_null (hw : WF s) {r : ObjectVersionRecord} (h : NullVersion s bucket key (some r)) (now : DateTime) :
    (s.readObjectLock r.versionId).deletionBlockAt now = none := by
  have hfree : s.objectLocks[lockKey r.versionId]? = none := by
    cases hl : s.objectLocks[lockKey r.versionId]? with
    | none => rfl
    | some state => exact absurd rfl (hw.locked_ne_removed hl h r rfl)
  simp [Catalog.readObjectLock, hfree, ObjectLockState.deletionBlockAt, ObjectLockState.unlocked]

theorem unlocked_of_wf (hw : WF s) {now : DateTime} : Unlocked s bad bucket key now := by
  intro r block hnull hblock
  rw [unlocked_null hw hnull] at hblock
  exact absurd hblock (by simp)

theorem deleteNull (h : Quiet env bad) {now : DateTime} {u : BucketUsage} (hl : Unlocked s bad bucket key now)
    (hw : Silent env bad ∨ WF s)
    (hu : Silent env bad ∨
      ∀ r, NullVersion s bucket key (some r) → 1 ≤ u.versions ∧ bytesOf (some r) ≤ u.versionBytes) :
    Avoids bad (deleteNull env bucket key now u) s := by
  simp only [Metadata.deleteNull, avoids_bind, takeNull hw, true_and]
  intro o s₁ htake
  obtain ⟨hnull, rfl⟩ := takeNull_returns htake
  cases o with
  | none => exact avoids_pure
  | some r =>
    have h1 := hu.imp_right fun hu => (hu r hnull).1
    have h2 := hu.imp_right fun hu => (hu r hnull).2
    simp only [avoids_bind, uncheckedSub h1, h.adjustCounter, true_and]
    refine ⟨removeReplaced fun block hb => hl r block hnull hb, ?_⟩
    intro _ _ _ _ _ _ _ _ _
    cases r with
    | deleteMarker mk n => exact avoids_pure
    | object m n =>
      have h2 : Silent env bad ∨ m.size ≤ u.versionBytes := h2
      simp only [ObjectVersionRecord.asObject, avoids_bind, uncheckedSub h2, h.adjustCounter, avoids_modify,
        avoids_pure, implies_true, and_self]

/-- An ordinary delete leaves the visible totals to `hideCurrent`. -/
theorem deleteCurrent_visible {versioning : VersioningState} {nm : NewDeleteMarker} {u : BucketUsage}
    {res : BucketUsage × List ObjectMetadata × Option DeleteMarker}
    (h : Returns (deleteCurrent env versioning bucket key nm u) s res s') :
    res.1.currentObjects = u.currentObjects ∧ res.1.logicalBytes = u.logicalBytes := by
  by_cases hv : versioning = .disabled
  · subst hv
    obtain ⟨_, -, -, rfl, -⟩ := deleteCurrent_disabled h
    exact ⟨rfl, rfl⟩
  · obtain ⟨_, _, -, -, -, rfl, -⟩ := deleteCurrent_marker hv h
    exact ⟨rfl, rfl⟩

theorem deleteObjectTx (h : Quiet env bad) {nm : NewDeleteMarker} (hl : Unlocked s bad bucket key nm.createdAt)
    (hs : Silent env bad ∨ Sound s) : Avoids bad (deleteObjectTx env bucket key nm) s := by
  have hnull : Avoids bad (Metadata.deleteNull env bucket key nm.createdAt (s.readBucketUsage bucket)) s := by
    refine h.deleteNull hl (hs.imp_right Sound.wf) (hs.imp_right fun hs r hr => ?_)
    obtain ⟨hrow, -, hmatch⟩ := hr.row hs.wf.index rfl
    exact hs.accounted.version_le hrow hmatch.1
  simp (disch := decide) only [Metadata.deleteObjectTx, avoids_bind, avoids_read, h.lookup, avoids_modify, avoids_when,
    h.journalEvent, avoids_pure, returns_read, returns_okOr, and_imp, implies_true, true_and, and_true]
  rintro _ _ rfl rfl record _ - rfl _ _ rfl rfl _ _ rfl rfl
  refine ⟨?_, fun res s₁ hdel => h.hideCurrent (hs.imp_right fun hs m hm => ?_)⟩
  · simp only [deleteCurrent, avoids_ite, avoids_bind, hnull, avoids_modify, avoids_pure, avoids_when, h.uncheckedAdd,
      h.adjustCounter, implies_true, and_self]
  · obtain ⟨h1, h2⟩ := deleteCurrent_visible hdel
    rw [h1, h2]
    exact hs.accounted.object_le hm (hs.wf.pointers.bucketId hm)

theorem dropVersionBytes (h : Quiet env bad) {r : ObjectVersionRecord} {u : BucketUsage}
    (hb : Silent env bad ∨ bytesOf (some r) ≤ u.versionBytes) : Avoids bad (dropVersionBytes env r u) s := by
  cases r with
  | deleteMarker mk n => exact avoids_pure
  | object m n =>
    have hb : Silent env bad ∨ m.size ≤ u.versionBytes := hb
    simp only [Metadata.dropVersionBytes, ObjectVersionRecord.asObject, avoids_bind, uncheckedSub hb, h.adjustCounter,
      avoids_modify, avoids_pure, implies_true, and_self]

theorem promote (h : Quiet env bad) {u : BucketUsage} : Avoids bad (promote env bucket key u) s := by
  simp only [Metadata.promote, avoids_bind, avoids_read, true_and]
  intro next _ _
  cases next with
  | none => exact avoids_pure
  | some r =>
    simp only [avoids_bind, avoids_modify, true_and]
    intro _ _ _
    cases r with
    | deleteMarker mk n => exact avoids_pure
    | object m n =>
      simp only [ObjectVersionRecord.asObject, avoids_bind, h.uncheckedAdd, h.adjustCounter, avoids_pure,
        implies_true, and_self]

/-- Past the check of its lock, the removal of a version fails quietly. -/
theorem removeExactVersion (h : Quiet env bad) (hs : Silent env bad ∨ Sound s) {version : VersionId}
    {release : LockRelease} {r : ObjectVersionRecord} (hr : s.versions[version.bytes]? = some r)
    (hm : r.matchesKey bucket key) :
    Avoids bad (removeExactVersion env bucket key version release r) s ↔
      Avoids bad (Metadata.enforceDeletable version release) s := by
  have hv1 := hs.imp_right fun hs => (hs.accounted.version_le hr hm.1).1
  have hv2 := hs.imp_right fun hs => (hs.accounted.version_le hr hm.1).2
  rw [Metadata.removeExactVersion, avoids_bind, and_iff_left_iff_imp]
  intro _ _ _ h1
  obtain ⟨-, c, rfl⟩ := enforceDeletable_returns h1
  simp only [avoids_bind, avoids_read, avoids_modify, avoids_when, h.adjustCounter, avoids_ite, avoids_pure,
    h.journalEvents, returns_read, returns_modify, and_imp, forall_eq, implies_true, true_and, and_true]
  rintro _ s₁ - rfl _ _ _ _ h2 u s₂ hu rfl
  -- the statements so far touched neither the usage row nor the current object
  obtain ⟨n, hs₂⟩ : ∃ n, s₂ = { s with
      versions := s.versions.erase r.versionId.bytes
      versionOrder := s.versionOrder.erase (versionOrderKey r)
      nullVersions := n
      objectLocks := s.objectLocks.erase (lockKey version)
      clock := c } := by
    rw [returns_when, returns_modify] at h2
    rcases h2 with ⟨-, rfl⟩ | ⟨-, rfl⟩
    · exact ⟨_, Catalog.clearNull_eq _ _ _⟩
    · exact ⟨_, rfl⟩
  subst hs₂
  obtain rfl : u = s.readBucketUsage bucket := hu
  refine ⟨uncheckedSub hv1, fun versions s₃ h3 _ s₄ h4 => ?_⟩
  obtain ⟨rfl, rfl⟩ := uncheckedSub_returns h3
  obtain ⟨t, rfl, -⟩ := adjustCounter_returns (c := .versions) h4
  refine ⟨h.dropVersionBytes hv2, fun u' s₅ h5 _ => ?_⟩
  obtain ⟨rfl, t', -, rfl⟩ := dropVersionBytes_returns h5
  simp only [replaceCurrent, avoids_bind, avoids_read, avoids_modify, h.promote, returns_read, and_imp,
    implies_true, true_and, and_true]
  rintro _ _ rfl rfl
  exact h.hideCurrent (hs.imp_right fun hs m' hm' => hs.accounted.object_le hm' (hs.wf.pointers.bucketId hm'))

theorem deleteObjectVersionTx (h : Quiet env bad) (hs : Silent env bad ∨ Sound s) {version : VersionId}
    {release : LockRelease} :
    Avoids bad (deleteObjectVersionTx env bucket key version release) s ↔
      ∀ r, s.versions[version.bytes]? = some r → r.matchesKey bucket key →
        Avoids bad (Metadata.enforceDeletable version release) s := by
  simp only [Metadata.deleteObjectVersionTx, avoids_bind, avoids_read, returns_read, and_imp, true_and,
    forall_eq_apply_imp_iff, forall_eq]
  cases hr : s.versions[version.bytes]? with
  | none => simp [avoids_pure]
  | some r =>
    simp only [avoids_ite, avoids_map, avoids_pure, implies_true, and_true, Option.some.injEq, forall_eq']
    exact forall_congr' fun hm => h.removeExactVersion hs hr hm

theorem applyInitialLock {b : Bucket} {version : VersionId} {lock : Option ObjectLockState} :
    Avoids bad (applyInitialLock b version lock) s ↔
      ((lock.any fun state => !state.isUnlocked) = true → b.objectLock = none →
        ¬ bad (.refused .objectLockNotEnabled)) := by
  unfold Metadata.applyInitialLock
  cases lock with
  | none => simp [avoids_pure]
  | some state =>
    by_cases hs : state.isUnlocked = true
    · rw [Option.filter_some, if_neg (by simp [hs])]
      simp [hs, avoids_pure]
    · rw [Option.filter_some, if_pos (by simp [hs])]
      simp [hs, avoids_bind, avoids_ensure, avoids_modify]

end Objects

/-! ## Writes -/

section Puts

variable {m : ObjectMetadata} {lock : Option ObjectLockState} {origin : WriteOrigin}

/-- A write passes the checks that come before the lock: what it replaces can be accounted for, and the
quotas hold. -/
structure PassesQuota (env : Env) (s : Catalog) (m : ObjectMetadata) (bucket : Bucket)
    (replaced : Option ObjectVersionRecord) : Prop where
  objects : env.overflowChecks = true → (s.readBucketUsage m.bucketId).currentObjects.toNat +
    (ofBool (s.objects[objectKey m.bucketId m.key]?).isNone).toNat < 2 ^ 64
  logical : (checkedReplace (s.readBucketUsage m.bucketId).logicalBytes
    (sizeOf? (s.objects[objectKey m.bucketId m.key]?)) m.size).isSome = true
  kept : env.overflowChecks = true → ofBool replaced.isSome ≤ (s.readBucketUsage m.bucketId).versions
  versions : env.overflowChecks = true →
    ((s.readBucketUsage m.bucketId).versions - ofBool replaced.isSome).toNat + (1 : UInt64).toNat < 2 ^ 64
  quota : ∃ bytes, checkedReplace (s.readBucketUsage m.bucketId).versionBytes
      (sizeOf? (replaced.bind (·.asObject))) m.size = some bytes ∧
    bucket.quota.bytes.allows (saturatingAdd bytes (s.readBucketUsage m.bucketId).multipartBytes) = true ∧
    bucket.quota.objects.allows ((s.readBucketUsage m.bucketId).currentObjects +
      ofBool (s.objects[objectKey m.bucketId m.key]?).isNone) = true

/-- What a write in a bucket replaces. -/
def Replaced (s : Catalog) (m : ObjectMetadata) (bucket : Bucket) (replaced : Option ObjectVersionRecord) : Prop :=
  if bucket.versioning ≠ .enabled then NullVersion s m.bucketId m.key replaced else replaced = none

/-- What is replaced was counted. -/
theorem Replaced.counted {b : Bucket} {o : Option ObjectVersionRecord} (h : Replaced s m b o) (hs : Sound s) :
    ofBool o.isSome ≤ (s.readBucketUsage m.bucketId).versions := by
  cases o with
  | none => exact UInt64.le_iff_toNat_le.mpr (Nat.zero_le _)
  | some r =>
    unfold Replaced at h
    split_ifs at h
    obtain ⟨hrow, -, hmatch⟩ := h.row hs.wf.index rfl
    exact (hs.accounted.version_le hrow hmatch.1).1

/-- A write that carries a lock into a bucket without Object Lock, and is otherwise acceptable. -/
def LockNotEnabled (env : Env) (s : Catalog) (m : ObjectMetadata) (lock : Option ObjectLockState) : Prop :=
  (lock.any fun state => !state.isUnlocked) = true ∧
    ∃ bucket replaced, s.readBucket m.bucketId = some bucket ∧ bucket.objectLock = none ∧
      Replaced s m bucket replaced ∧ PassesQuota env s m bucket replaced

theorem returns_uncheckedAdd {a b r : UInt64} {s' : Catalog} : Returns (Metadata.uncheckedAdd env a b) s r s' ↔
    (env.overflowChecks = true → a.toNat + b.toNat < 2 ^ 64) ∧ r = a + b ∧ s' = s := by
  simp only [Metadata.uncheckedAdd, returns_bind, returns_ensure, returns_pure]
  constructor
  · rintro ⟨_, _, ⟨hc, rfl⟩, rfl, rfl⟩
    exact ⟨hc, rfl, rfl⟩
  · rintro ⟨hc, rfl, rfl⟩
    exact ⟨(), _, ⟨hc, rfl⟩, rfl, rfl⟩

theorem returns_uncheckedSub {a b r : UInt64} {s' : Catalog} : Returns (Metadata.uncheckedSub env a b) s r s' ↔
    (env.overflowChecks = true → b ≤ a) ∧ r = a - b ∧ s' = s := by
  simp only [Metadata.uncheckedSub, returns_bind, returns_ensure, returns_pure]
  constructor
  · rintro ⟨_, _, ⟨hc, rfl⟩, rfl, rfl⟩
    exact ⟨hc, rfl, rfl⟩
  · rintro ⟨hc, rfl, rfl⟩
    exact ⟨(), _, ⟨hc, rfl⟩, rfl, rfl⟩

/-- The replaced version is found, and it goes unless it is locked. -/
theorem takeNull_of_nullVersion {bucket : BucketId} {key : ObjectKey} {o : Option ObjectVersionRecord}
    (h : NullVersion s bucket key o) :
    Returns (Metadata.takeNull bucket key) s o
      { s with nullVersions := s.nullVersions.erase (objectKey bucket key) } := by
  simp only [Metadata.takeNull, returns_bind, returns_read, returns_modify]
  refine ⟨_, _, ⟨rfl, rfl⟩, (), _, rfl, ?_⟩
  rcases h with ⟨hn, rfl⟩ | ⟨id, r, hn, hr, rfl⟩
  · rw [hn]
    exact returns_pure.mpr ⟨rfl, rfl⟩
  · rw [hn]
    simp only [returns_bind, returns_read, returns_okOr, returns_pure]
    exact ⟨_, _, ⟨rfl, rfl⟩, r, _, ⟨hr, rfl⟩, rfl, rfl⟩

theorem returns_replaced {b : Bucket} {o : Option ObjectVersionRecord} :
    (∃ s', Returns (if decide (b.versioning ≠ .enabled) = true then Metadata.takeNull m.bucketId m.key else pure none)
      s o s') ↔ Replaced s m b o := by
  unfold Replaced
  by_cases hv : b.versioning ≠ .enabled
  · rw [if_pos hv, if_pos (decide_eq_true hv)]
    constructor
    · rintro ⟨s', hret⟩
      exact (takeNull_returns hret).1
    · intro hnull
      exact ⟨_, takeNull_of_nullVersion hnull⟩
  · rw [if_neg hv, if_neg (by simpa using hv)]
    simp [returns_pure]

theorem replaced_frame {b : Bucket} {o : Option ObjectVersionRecord} {s' : Catalog}
    (h : Returns (if decide (b.versioning ≠ .enabled) = true then Metadata.takeNull m.bucketId m.key else pure none)
      s o s') : ∃ n, s' = { s with nullVersions := n } := by
  by_cases hv : b.versioning ≠ .enabled
  · rw [if_pos (decide_eq_true hv)] at h
    exact ⟨_, (takeNull_returns h).2⟩
  · rw [if_neg (by simpa using hv)] at h
    exact ⟨s.nullVersions, (returns_pure.mp h).2⟩

theorem removeReplaced_of_unlocked {o : Option ObjectVersionRecord} {now : DateTime}
    (h : ∀ r, o = some r → (s.readObjectLock r.versionId).deletionBlockAt now = none) :
    ∃ s', Returns (o.toList.forM fun r => Metadata.removeReplaced r now) s () s' := by
  cases o with
  | none => exact ⟨s, returns_forM_nil.mpr rfl⟩
  | some r =>
    refine ⟨(s.removeObjectLock r.versionId).removeVersion r, returns_forM_cons.mpr ⟨_, ?_, returns_forM_nil.mpr rfl⟩⟩
    simp only [Metadata.removeReplaced, assertUnlocked, returns_bind, returns_read, returns_modify]
    refine ⟨(), s, ⟨_, s, ⟨rfl, rfl⟩, ?_⟩, (), _, rfl, rfl⟩
    rw [h r rfl]
    exact returns_pure.mpr ⟨rfl, rfl⟩

theorem removeReplaced_option {o : Option ObjectVersionRecord} {now : DateTime}
    (hl : ∀ r block, o = some r → (s.readObjectLock r.versionId).deletionBlockAt now = some block →
      ¬ bad (.refused (.versionLocked block))) :
    Avoids bad (o.toList.forM fun r => Metadata.removeReplaced r now) s := by
  cases o with
  | none => exact avoids_pure
  | some r => exact avoids_bind.mpr ⟨removeReplaced fun block hb => hl r block rfl hb, fun _ _ _ => avoids_pure⟩

/-- A write avoids every failure but that of its lock, if what it replaces is not locked. -/
theorem putObjectTx (h : Quiet env bad) (hs : Silent env bad ∨ Sound s)
    (hu : Unlocked s bad m.bucketId m.key m.createdAt)
    (hlock : LockNotEnabled env s m lock → ¬ bad (.refused .objectLockNotEnabled)) :
    Avoids bad (putObjectTx env m lock origin) s := by
  simp (disch := decide) only [Metadata.putObjectTx, avoids_bind, avoids_read, h.lookup, avoids_ite, avoids_pure,
    h.uncheckedAdd, h.check, avoids_modify, applyInitialLock, avoids_when, h.adjustCounter,
    h.journalEvents, queueCleanups, returns_read, returns_okOr, returns_uncheckedAdd, returns_uncheckedSub,
    returns_ensure, returns_modify, and_imp, implies_true, true_and, and_true, and_self, forall_eq_apply_imp_iff,
    forall_eq]
  intro bucket hb
  refine ⟨fun _ => takeNull (hs.imp_right Sound.wf), ?_⟩
  rintro replaced s₁ hret _ _ hobjects rfl rfl logical hlogical
  have hrep := returns_replaced.mp ⟨_, hret⟩
  obtain ⟨n, rfl⟩ := replaced_frame hret
  refine ⟨uncheckedSub (hs.imp_right fun hs => hrep.counted hs), ?_⟩
  rintro _ _ hkept rfl rfl _ _ hversions rfl rfl bytes hbytes _ _ hquota hallows rfl
  refine ⟨?_, fun _ _ _ _ hcarries hnone => hlock ⟨hcarries, bucket, replaced, hb, hnone, hrep, ?_⟩⟩
  · refine removeReplaced_option fun r block hr hblock => hu r block ?_ hblock
    unfold Replaced at hrep
    split_ifs at hrep
    · exact hr ▸ hrep
    · rw [hrep] at hr
      cases hr
  · exact ⟨hobjects, Option.isSome_iff_exists.mpr ⟨logical, hlogical⟩, hkept, hversions, bytes, hbytes, hquota, hallows⟩

/-- In a well-formed catalog the failure of the lock is reached. -/
theorem not_lockNotEnabled (h : Quiet env bad) (hw : WF s)
    (hput : Avoids bad (Metadata.putObjectTx env m lock origin) s)
    (hlock : LockNotEnabled env s m lock) : ¬ bad (.refused .objectLockNotEnabled) := by
  obtain ⟨hcarries, bucket, replaced, hb, hnone, hrep, hq⟩ := hlock
  simp (disch := decide) only [Metadata.putObjectTx, avoids_bind, avoids_read, h.lookup, avoids_ite, avoids_pure,
    h.uncheckedAdd, h.check, avoids_modify, applyInitialLock, avoids_when, h.adjustCounter,
    h.journalEvents, queueCleanups, returns_read, returns_okOr, returns_uncheckedAdd, returns_uncheckedSub,
    returns_ensure, returns_modify, and_imp, implies_true, true_and, and_true, and_self, forall_eq_apply_imp_iff,
    forall_eq] at hput
  obtain ⟨s₁, hret⟩ := returns_replaced.mpr hrep
  obtain ⟨n, rfl⟩ := replaced_frame hret
  obtain ⟨logical, hlogical⟩ := Option.isSome_iff_exists.mp hq.logical
  obtain ⟨bytes, hbytes, hquota, hobjects⟩ := hq.quota
  have hunlocked : ∀ r, replaced = some r → (s.readObjectLock r.versionId).deletionBlockAt m.createdAt = none := by
    intro r hr
    unfold Replaced at hrep
    split_ifs at hrep
    · exact unlocked_null hw (hr ▸ hrep) _
    · rw [hrep] at hr
      cases hr
  obtain ⟨s₂, hremoved⟩ := removeReplaced_of_unlocked (s := { s with nullVersions := n }) hunlocked
  have hlater := ((hput bucket hb).2 replaced _ hret _ _ hq.objects rfl rfl logical hlogical).2
  exact (hlater _ _ hq.kept rfl rfl _ _ hq.versions rfl rfl bytes hbytes () _ hquota hobjects rfl).2 () s₂ hremoved ()
    hcarries hnone

end Puts

/-! ## Lock changes, buckets, uploads and rules -/

section Others

variable {bucket : BucketId} {key : ObjectKey} {version : VersionId}

/-- Why a change of a version's lock is refused, in the order of the checks. -/
def LockChangeRefused (s : Catalog) (bucket : BucketId) (key : ObjectKey) (version : VersionId)
    (requested : ObjectLockState) (release : LockRelease) (e : MetadataError) : Prop :=
  ∃ b, s.readBucket bucket = some b ∧
    if b.objectLock.isSome = true then
      if (s.versions[version.bytes]?).any (fun r => decide (r.matchesKey bucket key) && !r.isDeleteMarker) = true then
        if (s.readObjectLock version).changeOnlyTightens requested = false ∧ s.clockAllows release = false then
          e = .clockWentBackwards
        else ∃ reason, (s.readObjectLock version).withRetention requested.retention release.observedAt
          release.bypassGovernance = .error reason ∧ e = .objectLockChangeRefused reason
      else e = .objectLockVersionNotFound
    else e = .objectLockNotEnabled

/-- The last step of a lock change, behind the clock check of a change that does not only tighten. -/
theorem changeLock {requested : ObjectLockState} {release : LockRelease} :
    (∀ (_ : Unit) (s₁ : Catalog),
      (s.readObjectLock version).changeOnlyTightens requested = false ∧
      Returns (Metadata.observeClock release) s () s₁ ∨
        ¬ (s.readObjectLock version).changeOnlyTightens requested = false ∧ s₁ = s →
      Avoids bad (match (s.readObjectLock version).withRetention requested.retention release.observedAt
          release.bypassGovernance with
        | .error reason => (Metadata.refuse (.objectLockChangeRefused reason) : CatalogTx ObjectLockState)
        | .ok updated => do
          modify (Catalog.writeObjectLock version (updated.withLegalHold requested.legalHold))
          pure (updated.withLegalHold requested.legalHold)) s₁) ↔
      (¬ ((s.readObjectLock version).changeOnlyTightens requested = false ∧ s.clockAllows release = false) →
        ∀ reason, (s.readObjectLock version).withRetention requested.retention release.observedAt
          release.bypassGovernance = .error reason → ¬ bad (.refused (.objectLockChangeRefused reason))) := by
  constructor
  · intro hall hclock reason hreason
    obtain ⟨s₁, hs₁⟩ : ∃ s₁, (s.readObjectLock version).changeOnlyTightens requested = false ∧
        Returns (Metadata.observeClock release) s () s₁ ∨
        ¬ (s.readObjectLock version).changeOnlyTightens requested = false ∧ s₁ = s := by
      by_cases ht : (s.readObjectLock version).changeOnlyTightens requested = false
      · have hallows : s.clockAllows release = true := by
          rw [← Bool.not_eq_false]
          exact fun hc => hclock ⟨ht, hc⟩
        obtain ⟨_, s₁, hret⟩ := observeClock_returns_iff.mpr hallows
        exact ⟨s₁, .inl ⟨ht, hret⟩⟩
      · exact ⟨s, .inr ⟨ht, rfl⟩⟩
    have hafter := hall () s₁ hs₁
    rw [hreason] at hafter
    exact avoids_throw.mp hafter
  · intro hall _ s₁ hs₁
    have hclock : ¬ ((s.readObjectLock version).changeOnlyTightens requested = false ∧
        s.clockAllows release = false) := by
      rintro ⟨ht, hc⟩
      rcases hs₁ with ⟨-, hret⟩ | ⟨hn, -⟩
      · rw [observeClock_returns_iff.mp ⟨_, _, hret⟩] at hc
        cases hc
      · exact hn ht
    cases hr : (s.readObjectLock version).withRetention requested.retention release.observedAt
        release.bypassGovernance with
    | error reason => exact avoids_throw.mpr (hall hclock reason hr)
    | ok updated => simp only [avoids_bind, avoids_modify, avoids_pure, implies_true, and_self]

theorem putObjectLockTx (h : Quiet env bad) {requested : ObjectLockState} {release : LockRelease} :
    Avoids bad (putObjectLockTx bucket key version requested release) s ↔
      ∀ e, LockChangeRefused s bucket key version requested release e → ¬ bad (.refused e) := by
  simp (disch := decide) only [Metadata.putObjectLockTx, avoids_bind, avoids_read, h.lookup, avoids_ensure, avoids_okOr,
    avoids_when, observeClock, returns_read, returns_okOr, returns_ensure, returns_when, and_imp, true_and,
    forall_eq_apply_imp_iff, forall_eq, LockChangeRefused, forall_exists_index]
  constructor
  · intro hall e b hb he
    obtain ⟨hdisabled, henabled⟩ := hall b hb
    by_cases h1 : b.objectLock.isSome = true
    · obtain ⟨hmissing, hfound⟩ := henabled () h1
      rw [if_pos h1] at he
      cases hv : s.versions[version.bytes]? with
      | none =>
        simp only [hv, Option.any_none, Bool.false_eq_true, if_false] at he
        exact he ▸ hmissing hv
      | some r =>
        obtain ⟨hother, hmatch⟩ := hfound r hv
        by_cases hm : r.matchesKey bucket key
        · obtain ⟨hmarker, hobject⟩ := hmatch () hm
          by_cases hd : r.isDeleteMarker = false
          · obtain ⟨hback, hchange⟩ := hobject () hd
            simp only [hv, Option.any_some, hm, decide_true, hd, Bool.not_false, Bool.and_self, if_true] at he
            split_ifs at he with hc
            · exact he ▸ hback hc.1 hc.2
            · obtain ⟨reason, hreason, rfl⟩ := he
              exact changeLock.mp hchange hc reason hreason
          · simp only [hv, Option.any_some, hm, decide_true, hd, Bool.not_true, Bool.and_false, Bool.false_eq_true,
              if_false] at he
            exact he ▸ hmarker hd
        · simp only [hv, Option.any_some, hm, decide_false, Bool.false_and, Bool.false_eq_true, if_false] at he
          exact he ▸ hother hm
    · rw [if_neg h1] at he
      exact he ▸ hdisabled h1
  · intro hall b hb
    refine ⟨fun h1 => hall _ b hb (by rw [if_neg h1]), fun _ h1 => ⟨fun hv => hall _ b hb ?_, fun r hv =>
      ⟨fun hm => hall _ b hb ?_, fun _ hm => ⟨fun hd => hall _ b hb ?_, fun _ hd =>
        ⟨fun ht hc => hall _ b hb ?_, changeLock.mpr fun hc reason hreason => hall _ b hb ?_⟩⟩⟩⟩⟩
    · simp [h1, hv]
    · simp [h1, hv, hm]
    · simp [h1, hv, hd]
    · simp [h1, hv, hm, hd, ht, hc]
    · rw [if_pos h1, if_pos (by simp [hv, hm, hd]), if_neg hc]
      exact ⟨reason, hreason, rfl⟩

theorem removeMultipartTx (h : Quiet env bad) {id : UploadId} {c : Bool} {at_ : DateTime} :
    Avoids bad (removeMultipartTx env id c at_) s := by
  simp (disch := decide) only [Metadata.removeMultipartTx, avoids_bind, avoids_read, h.lookup, h.check, avoids_modify,
    h.adjustCounter, queueCleanups, avoids_when, h.journalEvent, avoids_pure, implies_true, and_self]

theorem recoverMultipartCompletionsTx (h : Quiet env bad) : Avoids bad (recoverMultipartCompletionsTx env) s := by
  have hup : ∀ (up : MultipartUpload) (s : Catalog), Avoids bad (recoverUpload env up) s := by
    intro up s
    unfold recoverUpload
    cases up.state with
    | active => exact avoids_pure
    | completing objectId =>
      simp only [avoids_bind, avoids_read, avoids_ite, h.removeMultipartTx, avoids_modify, avoids_pure, implies_true,
        and_self]
  simp only [Metadata.recoverMultipartCompletionsTx, avoids_bind, avoids_read, avoids_mapM hup, avoids_pure,
    implies_true, and_self]

theorem createBucketTx (h : Quiet env bad) {b : Bucket} :
    Avoids bad (createBucketTx env b) s ↔ ∀ e, checkNewBucket b = .error e → ¬ bad (.refused e) := by
  unfold Metadata.createBucketTx
  cases hb : checkNewBucket b with
  | error e => simp [Metadata.refuse, avoids_throw]
  | ok _ =>
    simp (disch := decide) only [avoids_bind, avoids_read, h.check, avoids_modify, h.journalEvent, h.adjustCounter,
      implies_true, and_self, reduceCtorEq, false_imp_iff]

theorem putLifecycleRuleTx (h : Quiet env bad) {rule : LifecycleRule} :
    Avoids bad (putLifecycleRuleTx rule) s ↔
      ∀ reason, rule.validate = .error reason → ¬ bad (.refused (.invalidLifecycleRule reason.toText)) := by
  unfold Metadata.putLifecycleRuleTx
  cases hr : rule.validate with
  | error reason => simp [Metadata.refuse, avoids_throw]
  | ok _ =>
    simp (disch := decide) only [avoids_bind, avoids_read, h.check, avoids_modify, implies_true, and_self, reduceCtorEq,
      false_imp_iff]

theorem setBucketObjectLockTx (h : Quiet env bad) {id : BucketId} {c : ObjectLockConfiguration} :
    Avoids bad (setBucketObjectLockTx id c) s ↔
      ∀ e, (validateObjectLock c = .error e ∨ ∃ c' b, validateObjectLock c = .ok c' ∧ s.readBucket id = some b ∧
        changeObjectLock c' b = .error e) → ¬ bad (.refused e) := by
  unfold Metadata.setBucketObjectLockTx
  cases hc : validateObjectLock c with
  | error e => simp [Metadata.refuse, avoids_throw]
  | ok c' =>
    simp only [h.updateBucketTx, reduceCtorEq, false_or, Except.ok.injEq, exists_and_left, exists_eq_left']
    constructor
    · rintro hall e ⟨b, hb, he⟩
      exact hall b e hb he
    · intro hall b e hb he
      exact hall e ⟨b, hb, he⟩

end Others

/-! ## Commands -/

section Commands

/-- Why the removal of a version is refused. -/
def DeletionRefused (s : Catalog) (version : VersionId) (release : LockRelease) (e : MetadataError) : Prop :=
  (s.readObjectLock version).isUnlocked = false ∧
    if s.clockAllows release = true then
      ∃ block, (s.readObjectLock version).deletionBlockAt release.observedAt = some block ∧
        ¬ (block.isBypassable = true ∧ release.bypassGovernance = true) ∧ e = .versionLocked block
    else e = .clockWentBackwards

/-- The refusals of a command that are not plain, in terms of the catalog it meets. -/
def Raises (env : Env) (s : Catalog) : MetadataCommand → MetadataError → Prop
  | .createBucket b, e => checkNewBucket b = .error e
  | .setBucketVersioning id state, e => ∃ b, s.readBucket id = some b ∧ changeVersioning state b = .error e
  | .setBucketObjectLock id c, e =>
    validateObjectLock c = .error e ∨
      ∃ c' b, validateObjectLock c = .ok c' ∧ s.readBucket id = some b ∧ changeObjectLock c' b = .error e
  | .putObject m lock _, e => e = .objectLockNotEnabled ∧ LockNotEnabled env s m lock
  | .deleteObjectVersion bucket key version release, e =>
    (∃ r, s.versions[version.bytes]? = some r ∧ r.matchesKey bucket key) ∧ DeletionRefused s version release e
  | .putObjectLock bucket key version requested release, e =>
    LockChangeRefused s bucket key version requested release e
  | .observeClock release, e => s.clockAllows release = false ∧ e = .clockWentBackwards
  | .putLifecycleRule rule, e => ∃ reason, rule.validate = .error reason ∧ e = .invalidLifecycleRule reason.toText
  | _, _ => False

theorem enforceDeletable_iff {version : VersionId} {release : LockRelease} :
    Avoids bad (Metadata.enforceDeletable version release) s ↔
      ∀ e, DeletionRefused s version release e → ¬ bad (.refused e) := by
  rw [enforceDeletable]
  unfold DeletionRefused
  constructor
  · rintro hall e ⟨hlocked, he⟩
    obtain ⟨hclock, hblock⟩ := hall hlocked
    split_ifs at he with hc
    · obtain ⟨block, hb, hby, rfl⟩ := he
      exact hblock hc block hb hby
    · exact he ▸ hclock (by simpa using hc)
  · intro hall hlocked
    refine ⟨fun hc => hall _ ⟨hlocked, ?_⟩, fun hc block hb hby => hall _ ⟨hlocked, ?_⟩⟩
    · rw [if_neg (by simp [hc])]
    · rw [if_pos hc]
      exact ⟨block, hb, hby, rfl⟩

/-- A command avoids every set of failures that contains none of its refusals. -/
theorem applyCommandTx (h : Quiet env bad) (hs : Silent env bad ∨ Sound s)
    (hu : ∀ bucket key now, Unlocked s bad bucket key now) (c : MetadataCommand)
    (hr : ∀ e, Raises env s c e → ¬ bad (.refused e)) : Avoids bad (applyCommandTx env c) s := by
  cases c with
  | createBucket b => exact avoids_bind.mpr ⟨h.createBucketTx.mpr hr, fun _ _ _ => avoids_pure⟩
  | setBucketVersioning id state =>
    exact avoids_map.mpr (h.updateBucketTx.mpr fun b e hb he => hr e ⟨b, hb, he⟩)
  | setBucketQuota id quota =>
    simp (disch := decide) only [Metadata.applyCommandTx, avoids_map, setBucketQuotaTx, avoids_bind, avoids_read,
      h.check, h.updateBucketTx, reduceCtorEq, false_imp_iff, implies_true, and_self]
  | setBucketCors id configuration =>
    exact avoids_map.mpr (h.updateBucketTx.mpr fun b e hb he => by simp at he)
  | deleteBucket name at_ =>
    simp (disch := decide) only [Metadata.applyCommandTx, avoids_map, deleteBucketTx, avoids_bind,
      avoids_read, h.lookup,
      h.check, avoids_modify, h.adjustCounter, h.journalEvent, avoids_pure, implies_true, and_self]
  | setBucketObjectLock id configuration => exact avoids_map.mpr (h.setBucketObjectLockTx.mpr hr)
  | putObject m lock origin =>
    exact avoids_map.mpr (h.putObjectTx hs (hu _ _ _) fun hl => hr _ ⟨rfl, hl⟩)
  | deleteObject bucket key nm => exact avoids_map.mpr (h.deleteObjectTx (hu _ _ _) hs)
  | deleteObjectVersion bucket key version release =>
    refine avoids_map.mpr ((h.deleteObjectVersionTx hs).mpr fun r hrow hm => enforceDeletable_iff.mpr fun e he => ?_)
    exact hr e ⟨⟨r, hrow, hm⟩, he⟩
  | putObjectLock bucket key version requested release => exact avoids_map.mpr (h.putObjectLockTx.mpr hr)
  | observeClock release =>
    refine avoids_bind.mpr ⟨observeClock.mpr fun hc => hr _ ⟨hc, rfl⟩, fun _ _ _ => avoids_pure⟩
  | createMultipartUpload up =>
    simp (disch := decide) only [Metadata.applyCommandTx, createMultipartUploadTx, avoids_bind, avoids_read, h.check,
      avoids_modify, avoids_pure, implies_true, and_self]
  | putMultipartPart part =>
    simp (disch := decide) only [Metadata.applyCommandTx, avoids_map, putMultipartPartTx, avoids_bind, avoids_read,
      h.lookup, h.check, avoids_modify, h.adjustCounter, queueCleanups, avoids_pure, implies_true, and_self]
  | beginMultipartCompletion id objectId =>
    simp (disch := decide) only [Metadata.applyCommandTx, avoids_map, beginMultipartCompletionTx, avoids_bind,
      avoids_read, h.lookup, true_and]
    intro _ _ _ up _ _
    cases hb : beginState up.state objectId with
    | error e =>
      unfold beginState at hb
      split at hb
      · cases hb
      · split_ifs at hb
        cases hb
        exact h.refuse rfl rfl
    | ok state => simp only [avoids_bind, avoids_modify, avoids_pure, implies_true, and_self]
  | finishMultipartUpload id => exact avoids_map.mpr h.removeMultipartTx
  | abortMultipartUpload id at_ => exact avoids_map.mpr h.removeMultipartTx
  | recoverMultipartCompletions => exact avoids_map.mpr h.recoverMultipartCompletionsTx
  | putLifecycleRule rule =>
    refine avoids_bind.mpr ⟨h.putLifecycleRuleTx.mpr fun reason hv => hr _ ⟨reason, hv, rfl⟩, fun _ _ _ => avoids_pure⟩
  | deleteLifecycleRule id =>
    simp (disch := decide) only [Metadata.applyCommandTx, deleteLifecycleRuleTx, avoids_bind, avoids_read, h.check,
      avoids_modify, avoids_pure, implies_true, and_self]
  | completeCleanup id =>
    simp only [Metadata.applyCommandTx, completeCleanupTx, avoids_bind, avoids_modify, avoids_pure,
      implies_true, and_self]
  | pruneMutationEvents through =>
    simp only [Metadata.applyCommandTx, pruneMutationEventsTx, avoids_bind, avoids_read, avoids_modify, avoids_pure,
      implies_true, and_self]

/-- In a well-formed catalog a command that avoids a set of failures has no refusal in it. -/
theorem not_raised (h : Silent env bad) (hw : WF s) {c : MetadataCommand}
    (ha : Avoids bad (Metadata.applyCommandTx env c) s) : ∀ e, Raises env s c e → ¬ bad (.refused e) := by
  intro e hr
  cases c with
  | createBucket b => exact h.createBucketTx.mp (avoids_bind.mp ha).1 e hr
  | setBucketVersioning id state =>
    obtain ⟨b, hb, he⟩ := hr
    exact h.updateBucketTx.mp (avoids_map.mp ha) b e hb he
  | setBucketObjectLock id configuration => exact h.setBucketObjectLockTx.mp (avoids_map.mp ha) e hr
  | putObject m lock origin =>
    obtain ⟨rfl, hl⟩ := hr
    exact h.not_lockNotEnabled hw (avoids_map.mp ha) hl
  | deleteObjectVersion bucket key version release =>
    obtain ⟨⟨r, hrow, hm⟩, he⟩ := hr
    exact enforceDeletable_iff.mp ((h.deleteObjectVersionTx (.inl h)).mp (avoids_map.mp ha) r hrow hm) e he
  | putObjectLock bucket key version requested release => exact h.putObjectLockTx.mp (avoids_map.mp ha) e hr
  | observeClock release =>
    obtain ⟨hc, rfl⟩ := hr
    exact observeClock.mp (avoids_bind.mp ha).1 hc
  | putLifecycleRule rule =>
    obtain ⟨reason, hv, rfl⟩ := hr
    exact h.putLifecycleRuleTx.mp (avoids_bind.mp ha).1 reason hv
  | _ => exact absurd hr id

end Commands

/-- Without overflow checks no command panics, in any catalog. -/
theorem never_panics (hoff : env.overflowChecks = false) (c : MetadataCommand) (s : Catalog) :
    Avoids (fun f => ∃ operation, f = .panicked operation) (Metadata.applyCommandTx env c) s := by
  have hrefused : ∀ e, ¬ ∃ operation, Failure.refused e = .panicked operation := by
    rintro e ⟨_, he⟩
    cases he
  have hq : Silent env fun f => ∃ operation, f = .panicked operation :=
    ⟨⟨fun hon => by simp [hoff] at hon, fun e _ _ => hrefused e⟩, fun hon => by simp [hoff] at hon, fun _ => hrefused _⟩
  exact hq.applyCommandTx (.inl hq) (fun _ _ _ _ block _ _ => hrefused _) c fun e _ => hrefused e

end Quiet

/-! ## Defects -/

section Defects

variable {s : Catalog} {env : Env} {e : MetadataError}

/-- The failures that only a catalog at odds with itself can produce. -/
def Defect : Failure → Prop
  | .panicked operation => operation = .subtract
  | .refused e => e.isInconsistent = true

theorem validateObjectLock_consistent {c : ObjectLockConfiguration} (h : validateObjectLock c = .error e) :
    e.isInconsistent = false := by
  unfold validateObjectLock at h
  split at h
  · cases h
  · cases h
    rfl

theorem checkNewBucket_consistent {b : Bucket} (h : checkNewBucket b = .error e) : e.isInconsistent = false := by
  unfold checkNewBucket at h
  split at h
  · cases h
  · split at h
    · cases h
      exact validateObjectLock_consistent (by assumption)
    · split_ifs at h
      cases h
      rfl

/-- No refusal of a command is about an index. -/
theorem consistent_of_raises {c : MetadataCommand} (h : Quiet.Raises env s c e) : e.isInconsistent = false := by
  cases c with
  | createBucket b => exact checkNewBucket_consistent h
  | setBucketVersioning id state =>
    obtain ⟨b, -, h⟩ := h
    unfold changeVersioning at h
    split_ifs at h <;> cases h <;> rfl
  | setBucketObjectLock id configuration =>
    rcases h with h | ⟨c', b, -, -, h⟩
    · exact validateObjectLock_consistent h
    · unfold changeObjectLock at h
      split_ifs at h
      cases h
      rfl
  | putObject m lock origin => exact h.1 ▸ rfl
  | deleteObjectVersion bucket key version release =>
    obtain ⟨-, -, h⟩ := h
    split_ifs at h
    · obtain ⟨block, -, -, rfl⟩ := h
      rfl
    · exact h ▸ rfl
  | putObjectLock bucket key version requested release =>
    obtain ⟨b, -, h⟩ := h
    split_ifs at h
    · exact h ▸ rfl
    · obtain ⟨reason, -, rfl⟩ := h
      rfl
    · exact h ▸ rfl
    · exact h ▸ rfl
  | observeClock release => exact h.2 ▸ rfl
  | putLifecycleRule rule =>
    obtain ⟨reason, -, rfl⟩ := h
    rfl
  | _ => exact absurd h id

/-- No command ends in a defect on a sound catalog: what goes was counted, and what is indexed exists. -/
theorem avoids_applyCommandTx (h : Sound s) (c : MetadataCommand) : Avoids Defect (applyCommandTx env c) s := by
  have hconsistent : ∀ e : MetadataError, e.isInconsistent = false → ¬ Defect (.refused e) := fun e he => by
    simp [Defect, he]
  have hq : Quiet env Defect := ⟨fun _ => nofun, fun e _ => hconsistent e⟩
  exact hq.applyCommandTx (.inr h) (fun _ _ _ _ _ _ _ => hconsistent _ rfl) c
    fun e he => hconsistent e (consistent_of_raises he)

end Defects

end RecordStore.Metadata

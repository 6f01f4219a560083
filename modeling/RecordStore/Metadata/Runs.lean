import RecordStore.Metadata.Accounting

/-!
# Metadata.Runs — sequences of commands

A run applies commands one after the other to the empty catalog, each in its own transaction; a command
that fails leaves the catalog as it was.  `Applied` lists what a successful command can have done, so
that an invariant is one case analysis, and `Sound` is carried along every run whose version
identifiers are new.
-/

namespace RecordStore.Metadata

open RecordStore.Lib RecordStore.Core Tx

/-! ## Runs -/

/-- The catalog after one command. -/
def step (env : Env) (s : Catalog) (c : MetadataCommand) : Catalog := (commit (applyCommandTx env c) s).2

/-- The catalog after a sequence of commands. -/
def run (env : Env) (cmds : List MetadataCommand) : Catalog := cmds.foldl (step env) .empty

theorem run_append (env : Env) (cmds : List MetadataCommand) (c : MetadataCommand) :
    run env (cmds ++ [c]) = step env (run env cmds) c := by
  unfold run
  rw [List.foldl_append]
  rfl

/-- The version identifier a command brings. -/
def MetadataCommand.newVersion? : MetadataCommand → Option VersionId
  | .putObject metadata _ _ => some metadata.versionId
  | .deleteObject _ _ marker => some marker.versionId
  | _ => none

/-- The payload identifier a command brings. -/
def MetadataCommand.newPayload? : MetadataCommand → Option ObjectId
  | .putObject metadata _ _ => some metadata.id
  | .putMultipartPart part => some part.objectId
  | _ => none

/-- No version identifier is brought twice. -/
def FreshVersions (cmds : List MetadataCommand) : Prop := (cmds.filterMap (·.newVersion?)).Nodup

/-- No payload identifier is brought twice. -/
def FreshPayloads (cmds : List MetadataCommand) : Prop := (cmds.filterMap (·.newPayload?)).Nodup

instance (cmds : List MetadataCommand) : Decidable (FreshVersions cmds) := inferInstanceAs (Decidable (List.Nodup _))
instance (cmds : List MetadataCommand) : Decidable (FreshPayloads cmds) := inferInstanceAs (Decidable (List.Nodup _))

/-! ## Values for concrete runs -/

namespace Sample

/-- A build with overflow checks. -/
def env : Env := { overflowChecks := true, newV5 := fun _ _ => Uuid.ofNat 0 }

def bucketName : BucketName := ⟨"logs", by decide⟩

def bucket (versioning : VersioningState) (objectLock : Option ObjectLockConfiguration) : Bucket where
  id := .ofNat 1
  organizationId := .ofNat 2
  name := bucketName
  createdAt := .epoch
  versioning := versioning
  quota := ⟨.unlimited, .unlimited⟩
  storageClass := none
  durabilityPolicy := none
  objectLock := objectLock
  cors := none

def key : ObjectKey := ⟨"a", by decide⟩
def otherKey : ObjectKey := ⟨"b", by decide⟩

def checksum : Checksum := ⟨.sha256, List.replicate 32 0, by decide⟩

def etag : ETag := ⟨"e", by decide⟩

def partNumber : PartNumber := ⟨1, by decide⟩

def object (payload version : Nat) (size : UInt64) : ObjectMetadata where
  id := .ofNat payload
  bucketId := .ofNat 1
  key := key
  versionId := .ofNat version
  size := size
  checksum := checksum
  payloadFormat := .plaintext
  durability := .single
  etag := etag
  contentType := none
  customMetadata := ∅
  createdAt := .epoch
  modifiedAt := .epoch

/-- An unversioned bucket and an object that is written twice. -/
def overwrite : List MetadataCommand :=
  [.createBucket (bucket .disabled none), .putObject (object 10 20 5) none .direct,
    .putObject (object 11 21 7) none .direct]

/-- An instant after the epoch. -/
def later : DateTime := .ofSeconds 1000

/-- A version written under a compliance retention. -/
def retained : List MetadataCommand :=
  [.createBucket (bucket .enabled (some ⟨none⟩)),
    .putObject (object 10 20 5) (some ⟨some ⟨.compliance, later⟩, false⟩) .direct]

/-- The deletion of that version while the retention runs, with a bypass. -/
def deleteRetained : MetadataCommand := .deleteObjectVersion (.ofNat 1) key (.ofNat 20) ⟨.epoch, 0, true⟩

end Sample

/-! ## What a successful command did -/

/-- The ways in which a command changes the catalog. -/
inductive Applied (env : Env) (s : Catalog) : MetadataCommand → Catalog → Prop
  | createBucket {b u s'} (h : Returns (createBucketTx env b) s u s') : Applied env s (.createBucket b) s'
  | updateBucket {c id update b s'} (hk : ∀ old new, update old = .ok new → KeepsLock old new)
      (hq : (∃ quota, c = .setBucketQuota id quota) ∨ ∀ old new, update old = .ok new → new.quota = old.quota)
      (h : Returns (updateBucketTx id update) s b s') : Applied env s c s'
  | deleteBucket {name at_ b s'} (h : Returns (deleteBucketTx env name at_) s b s') :
      Applied env s (.deleteBucket name at_) s'
  | putObject {m lock origin res s'} (h : Returns (putObjectTx env m lock origin) s res s') :
      Applied env s (.putObject m lock origin) s'
  | deleteObject {bucket key nm res s'} (h : Returns (deleteObjectTx env bucket key nm) s res s') :
      Applied env s (.deleteObject bucket key nm) s'
  | deleteObjectVersion {bucket key version release res s'}
      (h : Returns (deleteObjectVersionTx env bucket key version release) s res s') :
      Applied env s (.deleteObjectVersion bucket key version release) s'
  | putObjectLock {bucket key version requested release updated s'}
      (h : Returns (putObjectLockTx bucket key version requested release) s updated s') :
      Applied env s (.putObjectLock bucket key version requested release) s'
  | createUpload {up u s'} (h : Returns (createMultipartUploadTx up) s u s') :
      Applied env s (.createMultipartUpload up) s'
  | putPart {part previous s'} (h : Returns (putMultipartPartTx part) s previous s') :
      Applied env s (.putMultipartPart part) s'
  | beginCompletion {id objectId up s'} (h : Returns (beginMultipartCompletionTx id objectId) s up s') :
      Applied env s (.beginMultipartCompletion id objectId) s'
  | removeUpload {c id requireCompleting at_ res s'}
      (h : Returns (removeMultipartTx env id requireCompleting at_) s res s') : Applied env s c s'
  | recover {res s'} (h : Returns (recoverMultipartCompletionsTx env) s res s') :
      Applied env s .recoverMultipartCompletions s'
  | completeCleanup {id} :
      Applied env s (.completeCleanup id) { s with cleanup := s.cleanup.erase id.bytes }
  | aside {c clock rules events} :
      Applied env s c { s with clock := clock, lifecycleRules := rules, mutationEvents := events }

variable {s s' : Catalog} {env : Env} {c : MetadataCommand}

/-- Every successful command is one of these. -/
theorem applied_of_returns {out : MetadataOutcome} (h : Returns (applyCommandTx env c) s out s') :
    Applied env s c s' := by
  cases c with
  | createBucket b =>
    simp only [applyCommandTx, returns_bind, returns_pure] at h
    obtain ⟨_, _, h, -, rfl⟩ := h
    exact .createBucket h
  | setBucketVersioning id state =>
    obtain ⟨_, -, h⟩ := returns_map.mp h
    refine .updateBucket (fun _ _ => changeVersioning_keepsLock) (.inr fun old new hnew => ?_) h
    unfold changeVersioning at hnew
    split_ifs at hnew
    cases hnew
    rfl
  | setBucketQuota id quota =>
    simp only [applyCommandTx, returns_map, setBucketQuotaTx, returns_bind, returns_read, returns_ensure,
      exists_and_left, exists_const, exists_eq_left, and_assoc] at h
    obtain ⟨_, -, -, -, h⟩ := h
    refine .updateBucket ?_ (.inl ⟨quota, rfl⟩) h
    rintro old _ ⟨⟩
    exact ⟨rfl, rfl, rfl, fun _ he => he⟩
  | setBucketCors id configuration =>
    obtain ⟨_, -, h⟩ := returns_map.mp h
    refine .updateBucket ?_ (.inr ?_) h <;> rintro old _ ⟨⟩
    · exact ⟨rfl, rfl, rfl, fun _ he => he⟩
    · rfl
  | deleteBucket name at_ =>
    obtain ⟨_, -, h⟩ := returns_map.mp h
    exact .deleteBucket h
  | setBucketObjectLock id configuration =>
    obtain ⟨_, -, h⟩ := returns_map.mp h
    unfold setBucketObjectLockTx at h
    split at h
    · exact absurd h returns_throw
    · refine .updateBucket (fun _ _ => changeObjectLock_keepsLock) (.inr fun old new hnew => ?_) h
      unfold changeObjectLock at hnew
      split_ifs at hnew
      cases hnew
      rfl
  | putObject m lock origin =>
    obtain ⟨_, -, h⟩ := returns_map.mp h
    exact .putObject h
  | deleteObject bucket key nm =>
    obtain ⟨_, -, h⟩ := returns_map.mp h
    exact .deleteObject h
  | deleteObjectVersion bucket key version release =>
    obtain ⟨_, -, h⟩ := returns_map.mp h
    exact .deleteObjectVersion h
  | putObjectLock bucket key version requested release =>
    obtain ⟨_, -, h⟩ := returns_map.mp h
    exact .putObjectLock h
  | observeClock release =>
    simp only [applyCommandTx, returns_bind, returns_pure] at h
    obtain ⟨_, _, h, -, rfl⟩ := h
    obtain ⟨clock, rfl⟩ := observeClock_returns h
    exact .aside
  | createMultipartUpload up =>
    simp only [applyCommandTx, returns_bind, returns_pure] at h
    obtain ⟨_, _, h, -, rfl⟩ := h
    exact .createUpload h
  | putMultipartPart part =>
    obtain ⟨_, -, h⟩ := returns_map.mp h
    exact .putPart h
  | beginMultipartCompletion id objectId =>
    obtain ⟨_, -, h⟩ := returns_map.mp h
    exact .beginCompletion h
  | finishMultipartUpload id | abortMultipartUpload id at_ =>
    obtain ⟨_, -, h⟩ := returns_map.mp h
    exact .removeUpload h
  | recoverMultipartCompletions =>
    obtain ⟨_, -, h⟩ := returns_map.mp h
    exact .recover h
  | putLifecycleRule rule =>
    simp only [applyCommandTx, returns_bind, returns_pure] at h
    obtain ⟨_, _, h, -, rfl⟩ := h
    obtain ⟨-, rules, rfl⟩ := putLifecycleRuleTx_returns h
    exact .aside
  | deleteLifecycleRule id =>
    simp only [applyCommandTx, returns_bind, returns_pure] at h
    obtain ⟨_, _, h, -, rfl⟩ := h
    obtain ⟨rules, rfl⟩ := deleteLifecycleRuleTx_returns h
    exact .aside
  | completeCleanup id =>
    simp only [applyCommandTx, completeCleanupTx, returns_bind, returns_modify, returns_pure, exists_const,
      exists_eq_left] at h
    obtain ⟨-, rfl⟩ := h
    exact .completeCleanup
  | pruneMutationEvents through =>
    simp only [applyCommandTx, returns_bind, returns_pure] at h
    obtain ⟨_, _, h, -, rfl⟩ := h
    obtain ⟨events, rfl⟩ := pruneMutationEventsTx_returns h
    exact .aside

/-- A step leaves the catalog alone or applies the command. -/
theorem step_preserves {P : Catalog → Prop} (hs : P s) (h : ∀ s', Applied env s c s' → P s') :
    P (step env s c) :=
  commit_preserves hs fun _ _ hret => h _ (applied_of_returns hret)

/-! ## The invariant of fresh runs -/

/-- The catalog is well formed and its accounting exact. -/
structure Sound (s : Catalog) : Prop where
  wf : WF s
  accounted : Accounted s

theorem sound_empty : Sound .empty := by
  refine ⟨⟨⟨?_, ?_⟩, ?_, ?_, .empty, .empty, ?_, ?_, .empty, ?_⟩, ⟨?_, ?_, ?_, ?_⟩⟩
  · intro k b hb
    cases (Table.lookup_empty k).symm.trans hb
  · intro n b hb
    cases (Table.lookup_empty n).symm.trans hb
  · intro k
    rfl
  · intro k b hb
    cases (Table.lookup_empty k).symm.trans hb
  · intro k r hr
    cases (Table.lookup_empty k).symm.trans hr
  · intro k state hk
    cases (Table.lookup_empty k).symm.trans hk
  · intro k u hu
    cases (Table.lookup_empty k).symm.trans hu
  · intro b m
    have hzero : Catalog.empty.readBucketUsage b = .zero := by
      unfold Catalog.readBucketUsage
      rw [show Catalog.empty.bucketUsage[bucketKey b]? = none from Table.lookup_empty _]
      rfl
    rw [hzero]
    cases m <;> rfl
  · intro m
    cases m <;> decide
  · decide
  · decide

theorem Sound.step (h : Sound s) (happ : Applied env s c s')
    (hfresh : ∀ v, c.newVersion? = some v → s.versions[v.bytes]? = none) : Sound s' := by
  cases happ with
  | createBucket hret => exact ⟨h.wf.createBucket hret, h.accounted.createBucket h.wf hret⟩
  | updateBucket hk _ hret => exact ⟨h.wf.updateBucket hk hret, h.accounted.updateBucket hret⟩
  | deleteBucket hret =>
    have hempty := (deleteBucketTx_returns hret).2.1
    exact ⟨h.wf.deleteBucket hret fun _ _ => h.accounted.no_versions hempty,
      h.accounted.deleteBucket h.wf hret⟩
  | putObject hret =>
    exact ⟨h.wf.putObject hret (hfresh _ rfl), h.accounted.putObject h.wf hret (hfresh _ rfl)⟩
  | deleteObject hret =>
    exact ⟨h.wf.deleteObject hret (hfresh _ rfl), h.accounted.deleteObject h.wf hret (hfresh _ rfl)⟩
  | deleteObjectVersion hret =>
    exact ⟨h.wf.deleteObjectVersion hret, h.accounted.deleteObjectVersion h.wf hret⟩
  | putObjectLock hret =>
    refine ⟨h.wf.putObjectLock hret, ?_⟩
    obtain ⟨_, _, _, _, _, -, -, -, -, -, -, -, rfl⟩ := putObjectLockTx_returns hret
    exact h.accounted.frame (fun b m => by cases m <;> rfl) rfl rfl rfl
  | createUpload hret => exact ⟨h.wf.createUpload hret, h.accounted.createUpload h.wf hret⟩
  | putPart hret => exact ⟨h.wf.putPart hret, h.accounted.putPart h.wf hret⟩
  | beginCompletion hret =>
    obtain ⟨old, state, hold, -, rfl, rfl⟩ := beginMultipartCompletionTx_returns hret
    exact ⟨h.wf.setState hold state, h.accounted.setState hold state⟩
  | removeUpload hret => exact ⟨h.wf.removeUpload hret, h.accounted.removeUpload h.wf hret⟩
  | recover hret =>
    refine recover_preserves (Q := Sound) (fun _ h => h.wf) ?_ ?_ h hret
    · intro s₀ s₁ id res h₀ hrem
      exact ⟨h₀.wf.removeUpload hrem, h₀.accounted.removeUpload h₀.wf hrem⟩
    · intro s₀ up h₀ hup
      exact ⟨h₀.wf.setState hup _, h₀.accounted.setState hup _⟩
  | completeCleanup | aside =>
    refine ⟨⟨h.wf.buckets, h.wf.usage, h.wf.enabled, h.wf.index, h.wf.pointers, h.wf.owned, h.wf.locks,
      h.wf.uploads, h.wf.uploadOwned⟩, h.accounted.frame (fun b m => by cases m <;> rfl) rfl rfl rfl⟩

/-- Recovery touches uploads, parts and their accounting only. -/
theorem recover_keeps {α : Type} (f : Catalog → α)
    (hf : ∀ s uploads order parts usage cl t e, f { s with
      multipart := uploads, multipartOrder := order, parts := parts, bucketUsage := usage, cleanup := cl
      counters := t, mutationEvents := e } = f s)
    (hw : WF s) {res : MultipartCleanupResult} (hret : Returns (recoverMultipartCompletionsTx env) s res s') :
    f s' = f s := by
  refine (recover_preserves (Q := fun s₀ => WF s₀ ∧ f s₀ = f s) (fun _ h => h.1) ?_ ?_ ⟨hw, rfl⟩ hret).2
  · rintro s₀ s₁ id res ⟨hw₀, e⟩ hrem
    refine ⟨hw₀.removeUpload hrem, ?_⟩
    obtain ⟨_, _, _, _, -, -, -, -, -, -, rfl⟩ := removeMultipartTx_returns hrem
    rw [← e]
    exact hf _ _ _ _ _ _ _ _
  · rintro s₀ up ⟨hw₀, e⟩ hup
    refine ⟨hw₀.setState hup _, ?_⟩
    rw [← e]
    exact hf s₀ _ s₀.multipartOrder s₀.parts s₀.bucketUsage s₀.cleanup s₀.counters s₀.mutationEvents

/-- No version, pointer or lock record changed. -/
structure SameHistory (s s' : Catalog) : Prop where
  versions : s'.versions = s.versions
  objects : s'.objects = s.objects
  markers : s'.markers = s.markers
  locks : s'.objectLocks = s.objectLocks

/-- Four commands touch the version history; the others leave it alone. -/
theorem Applied.history (happ : Applied env s c s') (hw : WF s) :
    SameHistory s s' ∨
    (∃ m lock origin res, c = .putObject m lock origin ∧ Returns (putObjectTx env m lock origin) s res s') ∨
    (∃ bucket key nm res, c = .deleteObject bucket key nm ∧
      Returns (deleteObjectTx env bucket key nm) s res s') ∨
    (∃ bucket key version release r res, c = .deleteObjectVersion bucket key version release ∧
      s.versions[version.bytes]? = some r ∧ r.matchesKey bucket key ∧
      Returns (removeExactVersion env bucket key version release r) s res s') ∨
    ∃ bucket key version requested release updated,
      c = .putObjectLock bucket key version requested release ∧
      Returns (putObjectLockTx bucket key version requested release) s updated s' := by
  cases happ with
  | createBucket hret =>
    obtain ⟨-, -, -, _, _, -, rfl⟩ := createBucketTx_returns hret
    exact .inl ⟨rfl, rfl, rfl, rfl⟩
  | updateBucket _ _ hret =>
    obtain ⟨_, -, -, rfl⟩ := updateBucketTx_returns hret
    exact .inl ⟨rfl, rfl, rfl, rfl⟩
  | deleteBucket hret =>
    obtain ⟨-, -, -, _, _, _, -, rfl⟩ := deleteBucketTx_returns hret
    exact .inl ⟨rfl, rfl, rfl, rfl⟩
  | putObject hret => exact .inr (.inl ⟨_, _, _, _, rfl, hret⟩)
  | deleteObject hret => exact .inr (.inr (.inl ⟨_, _, _, _, rfl, hret⟩))
  | deleteObjectVersion hret =>
    rcases deleteObjectVersionTx_returns hret with rfl | ⟨r, res', hr, hm, hrem⟩
    · exact .inl ⟨rfl, rfl, rfl, rfl⟩
    · exact .inr (.inr (.inr (.inl ⟨_, _, _, _, r, res', rfl, hr, hm, hrem⟩)))
  | putObjectLock hret => exact .inr (.inr (.inr (.inr ⟨_, _, _, _, _, _, rfl, hret⟩)))
  | createUpload hret =>
    obtain ⟨-, -, rfl⟩ := createMultipartUploadTx_returns hret
    exact .inl ⟨rfl, rfl, rfl, rfl⟩
  | putPart hret =>
    obtain ⟨_, _, _, _, -, -, -, -, -, -, -, rfl⟩ := putMultipartPartTx_returns hret
    exact .inl ⟨rfl, rfl, rfl, rfl⟩
  | beginCompletion hret =>
    obtain ⟨_, _, -, -, rfl, rfl⟩ := beginMultipartCompletionTx_returns hret
    exact .inl ⟨rfl, rfl, rfl, rfl⟩
  | removeUpload hret =>
    obtain ⟨_, _, _, _, -, -, -, -, -, -, rfl⟩ := removeMultipartTx_returns hret
    exact .inl ⟨rfl, rfl, rfl, rfl⟩
  | recover hret =>
    exact .inl ⟨recover_keeps (fun s => s.versions) (by intros; rfl) hw hret,
      recover_keeps (fun s => s.objects) (by intros; rfl) hw hret,
      recover_keeps (fun s => s.markers) (by intros; rfl) hw hret,
      recover_keeps (fun s => s.objectLocks) (by intros; rfl) hw hret⟩
  | completeCleanup => exact .inl ⟨rfl, rfl, rfl, rfl⟩
  | aside => exact .inl ⟨rfl, rfl, rfl, rfl⟩

/-- A version row that was not there before is the one the command brought; only a put brings an object. -/
theorem Applied.version_row (happ : Applied env s c s') (hw : WF s) {k : Bytes} {r : ObjectVersionRecord}
    (hr : s'.versions[k]? = some r) : s.versions[k]? = some r ∨ c.newVersion? = some r.versionId ∧
      ∀ m isNull, r = .object m isNull → ∃ lock origin, c = .putObject m lock origin := by
  rcases happ.history hw with hsame | ⟨m, lock, origin, res, rfl, hret⟩ | ⟨bucket, key, nm, res, rfl, hret⟩ |
    ⟨bucket, key, version, release, r₁, res, rfl, -, -, hret⟩ |
    ⟨bucket, key, version, requested, release, updated, rfl, hret⟩
  · rw [hsame.versions] at hr
    exact .inl hr
  · obtain ⟨b, isNull, removed, u', -, -, -, -, -, -, -, -, t, e, -, rfl⟩ := putObjectTx_returns hret
    rcases Table.of_lookup_insert hr with ⟨-, rfl⟩ | ⟨-, hr⟩
    · refine .inr ⟨rfl, ?_⟩
      rintro _ _ ⟨⟩
      exact ⟨lock, origin, rfl⟩
    · exact .inl (lookup_dropVersion hr)
  · obtain ⟨record, s₁, r₁, -, hdel, t, e, -, rfl⟩ := deleteObjectTx_returns hret
    by_cases hv : record.versioning = .disabled
    · rw [hv] at hdel
      obtain ⟨removed, -, -, rfl, t', -, rfl⟩ := deleteCurrent_disabled hdel
      exact .inl (lookup_dropVersion hr)
    · obtain ⟨isNull, removed, -, -, -, rfl, t', -, rfl⟩ := deleteCurrent_marker hv hdel
      rcases Table.of_lookup_insert hr with ⟨-, rfl⟩ | ⟨-, hr⟩
      · refine .inr ⟨rfl, ?_⟩
        rintro _ _ ⟨⟩
      · exact .inl (lookup_dropVersion hr)
  · obtain ⟨-, ob, mk, u', cl, t, e, -, rfl⟩ := removeExactVersion_returns hret
    exact .inl (Table.of_lookup_erase hr).2
  · obtain ⟨_, _, _, _, _, -, -, -, -, -, -, -, rfl⟩ := putObjectLockTx_returns hret
    exact .inl hr

theorem VersionIndex.lookup_none (h : VersionIndex s.versions s.versionOrder s.nullVersions) {v : VersionId}
    (hne : ∀ r : ObjectVersionRecord, s.versions[v.bytes]? = some r → r.versionId ≠ v) :
    s.versions[v.bytes]? = none := by
  by_contra hsome
  obtain ⟨r, hr⟩ := Option.ne_none_iff_exists'.mp hsome
  exact hne r hr (Id.bytes_inj.mp (h.key _ _ hr)).symm

/-- Every version of a fresh run was brought by one of its commands. -/
theorem sound_run (env : Env) (cmds : List MetadataCommand) (hf : FreshVersions cmds) :
    Sound (run env cmds) ∧ ∀ (k : Bytes) (r : ObjectVersionRecord), (run env cmds).versions[k]? = some r →
      r.versionId ∈ cmds.filterMap (·.newVersion?) := by
  induction cmds using List.reverseRecOn with
  | nil => exact ⟨sound_empty, fun k r hr => by cases (Table.lookup_empty k).symm.trans hr⟩
  | append_singleton cmds c ih =>
    unfold FreshVersions at hf
    rw [List.filterMap_append, List.nodup_append] at hf
    obtain ⟨hs, hused⟩ := ih hf.1
    have hnew : ∀ v, c.newVersion? = some v → (run env cmds).versions[v.bytes]? = none :=
      fun v hv => hs.wf.index.lookup_none fun r hr e => hf.2.2 _ (hused _ r hr) v (by simp [hv]) e
    rw [run_append]
    refine step_preserves (P := fun s => Sound s ∧ ∀ (k : Bytes) (r : ObjectVersionRecord),
      s.versions[k]? = some r → r.versionId ∈ (cmds ++ [c]).filterMap (·.newVersion?)) ?_ ?_
    · refine ⟨hs, fun k r hr => ?_⟩
      rw [List.filterMap_append]
      exact List.mem_append_left _ (hused k r hr)
    · intro s' happ
      refine ⟨hs.step happ hnew, fun k r hr => ?_⟩
      rw [List.filterMap_append]
      rcases happ.version_row hs.wf hr with hold | ⟨hbrought, -⟩
      · exact List.mem_append_left _ (hused k r hold)
      · exact List.mem_append_right _ (by simp [hbrought])

/-- The version identifier a fresh run brings next is not in the catalog. -/
theorem fresh_next {cmds : List MetadataCommand} (hf : FreshVersions (cmds ++ [c])) :
    ∀ v, c.newVersion? = some v → (run env cmds).versions[v.bytes]? = none := by
  intro v hv
  unfold FreshVersions at hf
  rw [List.filterMap_append, List.nodup_append] at hf
  obtain ⟨hs, hused⟩ := sound_run env cmds hf.1
  exact hs.wf.index.lookup_none fun r hr e => hf.2.2 _ (hused _ r hr) v (by simp [hv]) e

theorem FreshVersions.of_append {cmds later : List MetadataCommand} (h : FreshVersions (cmds ++ later)) :
    FreshVersions cmds := by
  unfold FreshVersions at *
  rw [List.filterMap_append, List.nodup_append] at h
  exact h.1

/-- What every applied command preserves from a fresh state of the run, the next state has. -/
theorem run_step {cmds : List MetadataCommand} {P : Catalog → Prop} (hf : FreshVersions (cmds ++ [c]))
    (hP : P (run env cmds)) (hstep : ∀ s', Sound (run env cmds) →
      (∀ v, c.newVersion? = some v → (run env cmds).versions[v.bytes]? = none) →
      Applied env (run env cmds) c s' → P s') : P (run env (cmds ++ [c])) := by
  rw [run_append]
  exact step_preserves hP fun s' happ =>
    hstep s' (sound_run env cmds hf.of_append).1 (fresh_next hf) happ

end RecordStore.Metadata

import RecordStore.Lib.Reclaim
import RecordStore.Metadata.Runs

/-!
# Metadata.Payloads — payload references and the cleanup queue

Object versions and uploaded parts refer to payloads, and `CLEANUP` holds the payloads that became
unreachable.  Each command is described as a move of these holdings: which slots it drops, which one
it fills.  Over a run whose version and payload identifiers are new, the queue never holds a payload
that is referred to, and every payload that lost its last reference is in it.
-/

namespace RecordStore.Metadata

open RecordStore.Lib RecordStore.Core Tx

/-! ## Holdings of a catalog -/

/-- `payload_referenced`. -/
def Catalog.payloadReferenced (s : Catalog) (id : ObjectId) : Bool :=
  (s.versions.rows.any fun r => r.asObject.any fun m => m.id = id) ||
    s.parts.rows.any fun p => p.objectId = id

/-- Whether `CLEANUP` has a row for the payload. -/
def Catalog.queued (s : Catalog) (id : ObjectId) : Bool := (s.cleanup[id.bytes]?).isSome

/-- The rows that refer to payloads. -/
inductive Slot where
  | version (key : Bytes)
  | part (key : Bytes)

/-- The payload of an optional version. -/
def payloadOf (o : Option ObjectVersionRecord) : Option ObjectId := o.bind fun r => r.asObject.map (·.id)

/-- The payload a row refers to. -/
def Catalog.payloadAt (s : Catalog) : Slot → Option ObjectId
  | .version k => payloadOf s.versions[k]?
  | .part k => (s.parts[k]?).map (·.objectId)

def Catalog.holdings (s : Catalog) : Holdings Slot ObjectId where
  ref := s.payloadAt
  queue := {p | s.queued p = true}

/-- The payload identifier a command takes out of the queue. -/
def MetadataCommand.completed? : MetadataCommand → Option ObjectId
  | .completeCleanup id => some id
  | _ => none

variable {s s' : Catalog} {env : Env} {c : MetadataCommand}

/-- The scan of `payload_referenced` finds exactly the references. -/
theorem payloadReferenced_iff {p : ObjectId} : s.payloadReferenced p = true ↔ s.holdings.Referenced p := by
  simp only [Catalog.payloadReferenced, Bool.or_eq_true, List.any_eq_true, Table.mem_rows, Option.any_eq_true,
    decide_eq_true_eq]
  constructor
  · rintro (⟨r, ⟨k, hk⟩, m, hm, hp⟩ | ⟨part, ⟨k, hk⟩, hp⟩)
    · refine ⟨.version k, ?_⟩
      show payloadOf s.versions[k]? = _
      rw [hk, payloadOf, Option.bind_some, hm, Option.map_some, hp]
    · refine ⟨.part k, ?_⟩
      show (s.parts[k]?).map _ = _
      rw [hk, Option.map_some, hp]
  · rintro ⟨k | k, hk⟩
    · obtain ⟨r, hr, hm⟩ := Option.bind_eq_some_iff.mp hk
      obtain ⟨m, hm, hp⟩ := Option.map_eq_some_iff.mp hm
      exact .inl ⟨r, ⟨k, hr⟩, m, hm, hp⟩
    · obtain ⟨part, hr, hp⟩ := Option.map_eq_some_iff.mp hk
      exact .inr ⟨part, ⟨k, hr⟩, hp⟩

/-- Only the version rows, the part rows and the cleanup rows matter. -/
theorem holdings_congr (hv : s'.versions = s.versions) (hp : s'.parts = s.parts)
    (hc : s'.cleanup = s.cleanup) : s'.holdings = s.holdings := by
  unfold Catalog.holdings Catalog.queued
  rw [hc]
  congr 1
  funext a
  cases a <;> simp only [Catalog.payloadAt, hv, hp]

/-! ## The moves of the commands -/

section Moves

theorem queued_payload {o : Option ObjectVersionRecord} {t : Table Bytes UInt8} {p : ObjectId} :
    ((queuePayload o t)[p.bytes]?).isSome = true ↔ (t[p.bytes]?).isSome = true ∨ payloadOf o = some p := by
  have hbind : payloadOf o = (o.bind (·.asObject)).map (·.id) := by
    cases o <;> rfl
  rw [hbind]
  unfold queuePayload
  cases o.bind (·.asObject) with
  | none => simp
  | some m =>
    simp only [Option.elim_some, Table.lookup_insert, Id.bytes_inj, Option.map_some, Option.some.injEq]
    split_ifs with h
    · simp [h]
    · simp [Ne.symm h]

theorem queued_parts {l : List UploadedPart} {t : Table Bytes UInt8} {p : ObjectId} :
    ((l.foldl (fun t part => t.insert part.objectId.bytes 1) t)[p.bytes]?).isSome = true ↔
      (t[p.bytes]?).isSome = true ∨ ∃ part ∈ l, part.objectId = p := by
  rw [Table.lookup_foldl_insert (fun part : UploadedPart => part.objectId.bytes)]
  have hmem : p.bytes ∈ l.map (fun part => part.objectId.bytes) ↔ ∃ part ∈ l, part.objectId = p := by
    simp only [List.mem_map, Id.bytes_inj]
  split_ifs with h
  · simp [hmem.mp h]
  · rw [or_iff_left (fun hp => h (hmem.mpr hp))]

/-- A version is removed with its payload queued; what replaces it brings no payload. -/
theorem moves_dropVersion {removed : Option ObjectVersionRecord}
    (hrow : ∀ r, removed = some r → s.versions[r.versionId.bytes]? = some r)
    (hver : ∀ k : Bytes, payloadOf s'.versions[k]? = payloadOf (dropVersion removed s.versions)[k]?)
    (hparts : s'.parts = s.parts) (hcl : s'.cleanup = queuePayload removed s.cleanup) :
    Holdings.Moves none none s.holdings s'.holdings := by
  refine .drop (D := {a | ∃ r, removed = some r ∧ a = .version r.versionId.bytes}) ?_ ?_ ?_
  · rintro _ ⟨r, rfl, rfl⟩
    refine (hver _).trans ?_
    rw [dropVersion, Option.elim_some, Table.lookup_erase_self]
    rfl
  · rintro (k | k) hk
    · refine (hver k).trans ?_
      show _ = payloadOf s.versions[k]?
      cases removed with
      | none => rfl
      | some r =>
        rw [dropVersion, Option.elim_some, Table.lookup_erase,
          if_neg fun e => hk ⟨r, rfl, congrArg Slot.version e⟩]
    · show (s'.parts[k]?).map _ = (s.parts[k]?).map _
      rw [hparts]
  · intro p
    show (s'.cleanup[p.bytes]?).isSome = true ↔ _
    rw [hcl, queued_payload]
    refine or_congr Iff.rfl ⟨fun hp => ?_, ?_⟩
    · obtain ⟨r, rfl, hm⟩ := Option.bind_eq_some_iff.mp hp
      refine ⟨_, ⟨r, rfl, rfl⟩, ?_⟩
      show payloadOf s.versions[r.versionId.bytes]? = _
      rw [hrow r rfl]
      exact hp
    · rintro ⟨_, ⟨r, rfl, rfl⟩, hp⟩
      rw [← hp]
      show _ = payloadOf s.versions[r.versionId.bytes]?
      rw [hrow r rfl]

/-- The parts of an upload are removed with their payloads queued. -/
theorem moves_dropParts (hw : WF s) {id : UploadId} (hver : s'.versions = s.versions)
    (hparts : s'.parts = s.parts.filter fun _ p => decide (p.uploadId ≠ id))
    (hcl : s'.cleanup = (s.listParts id).foldl (fun t part => t.insert part.objectId.bytes 1) s.cleanup) :
    Holdings.Moves none none s.holdings s'.holdings := by
  refine .drop (D := {a | ∃ k p, a = .part k ∧ s.parts[k]? = some p ∧ p.uploadId = id}) ?_ ?_ ?_
  · rintro _ ⟨k, p, rfl, hk, hid⟩
    show (s'.parts[k]?).map _ = none
    rw [hparts, Std.ExtTreeMap.getElem?_filter', hk]
    simp [hid]
  · rintro (k | k) hk
    · show payloadOf s'.versions[k]? = payloadOf s.versions[k]?
      rw [hver]
    · show (s'.parts[k]?).map _ = (s.parts[k]?).map _
      rw [hparts, Std.ExtTreeMap.getElem?_filter']
      cases hp : s.parts[k]? with
      | none => rfl
      | some p =>
        have hne : p.uploadId ≠ id := fun e => hk ⟨k, p, rfl, hp, e⟩
        simp [hne]
  · intro p
    show (s'.cleanup[p.bytes]?).isSome = true ↔ _
    rw [hcl, queued_parts]
    refine or_congr Iff.rfl ⟨?_, ?_⟩
    · rintro ⟨part, hmem, rfl⟩
      obtain ⟨hrow, hid⟩ := hw.uploads.mem_partsOf.mp hmem
      refine ⟨_, ⟨_, part, rfl, hrow, hid⟩, ?_⟩
      show (s.parts[_]?).map _ = _
      rw [hrow]
      rfl
    · rintro ⟨_, ⟨k, part, rfl, hk, hid⟩, hp⟩
      replace hp : (s.parts[k]?).map (·.objectId) = some p := hp
      rw [hk] at hp
      refine ⟨part, hw.uploads.mem_partsOf.mpr ⟨?_, hid⟩, Option.some.inj hp⟩
      rw [← hid, ← (hw.uploads.part k part hk).1]
      exact hk

theorem moves_removeUpload (hw : WF s) {id : UploadId} {requireCompleting : Bool} {at_ : DateTime}
    {res : MultipartCleanupResult} (hret : Returns (removeMultipartTx env id requireCompleting at_) s res s') :
    Holdings.Moves none none s.holdings s'.holdings := by
  obtain ⟨up, bytes, t, e, -, -, -, -, -, -, rfl⟩ := removeMultipartTx_returns hret
  exact moves_dropParts hw rfl (hw.uploads.erase_partsOf id) rfl

/-- A part is stored in the place of an earlier one. -/
theorem moves_putPart {part : UploadedPart} {previous : Option UploadedPart}
    (hret : Returns (putMultipartPartTx part) s previous s') :
    Holdings.Moves (some part.objectId) none s.holdings s'.holdings := by
  obtain ⟨up, b, proposed, t, -, -, -, rfl, -, -, -, rfl⟩ := putMultipartPartTx_returns hret
  generalize hkey : partKey part.uploadId part.number = key
  let s₁ : Catalog := { s with parts := s.parts.erase key, cleanup := queuePart s.parts[key]? s.cleanup }
  have hdrop : Holdings.Moves none none s.holdings s₁.holdings := by
    refine .drop (D := {.part key}) ?_ ?_ ?_
    · rintro _ rfl
      show ((s.parts.erase key)[key]?).map _ = none
      rw [Table.lookup_erase_self]
      rfl
    · rintro (k | k) hk
      · rfl
      · show ((s.parts.erase key)[k]?).map _ = (s.parts[k]?).map _
        rw [Table.lookup_erase, if_neg fun e => hk (congrArg Slot.part e)]
    · intro p
      show ((queuePart s.parts[key]? s.cleanup)[p.bytes]?).isSome = true ↔ _
      rw [show queuePart s.parts[key]? s.cleanup = (s.parts[key]?).toList.foldl
        (fun t part => t.insert part.objectId.bytes 1) s.cleanup by cases s.parts[key]? <;> rfl, queued_parts]
      refine or_congr Iff.rfl ⟨?_, ?_⟩
      · rintro ⟨old, hold, rfl⟩
        refine ⟨_, rfl, ?_⟩
        show (s.parts[key]?).map _ = _
        rw [Option.mem_toList.mp hold]
        rfl
      · rintro ⟨_, rfl, hp⟩
        obtain ⟨old, hold, rfl⟩ := Option.map_eq_some_iff.mp hp
        exact ⟨old, Option.mem_toList.mpr hold, rfl⟩
  refine hdrop.trans (.fill (a := .part key) ?_ ?_ ?_ rfl)
  · show ((s.parts.erase key)[key]?).map _ = none
    rw [Table.lookup_erase_self]
    rfl
  · show ((s.parts.insert key part)[key]?).map _ = _
    rw [Table.lookup_insert_self]
    rfl
  · rintro (k | k) hk
    · rfl
    · show ((s.parts.insert key part)[k]?).map _ = ((s.parts.erase key)[k]?).map _
      have hne : k ≠ key := fun e => hk (congrArg Slot.part e)
      rw [Table.lookup_insert, Table.lookup_erase, if_neg hne, if_neg hne]

/-- A version is published in the place of the null version it replaces. -/
theorem moves_putObject (hw : WF s) {m : ObjectMetadata} {lock : Option ObjectLockState} {origin : WriteOrigin}
    {res : ObjectCommitResult} (hret : Returns (putObjectTx env m lock origin) s res s')
    (hfresh : s.versions[m.versionId.bytes]? = none) :
    Holdings.Moves (some m.id) none s.holdings s'.holdings := by
  obtain ⟨b, isNull, replaced, u', -, -, hnull, -, -, -, -, -, t, e, -, rfl⟩ := putObjectTx_returns hret
  let s₁ : Catalog :=
    { s with versions := dropVersion replaced s.versions, cleanup := queuePayload replaced s.cleanup }
  have hdrop : Holdings.Moves none none s.holdings s₁.holdings :=
    moves_dropVersion (fun r hr => (removed_row hw.index hnull r hr).1) (fun _ => rfl) rfl rfl
  refine hdrop.trans (.fill (a := .version m.versionId.bytes) ?_ ?_ ?_ rfl)
  · show payloadOf (dropVersion replaced s.versions)[_]? = none
    rw [lookup_dropVersion_none hfresh]
    rfl
  · show payloadOf (Std.ExtTreeMap.insert _ _ _)[_]? = _
    rw [Table.lookup_insert_self]
    rfl
  · rintro (k | k) hk
    · show payloadOf (Std.ExtTreeMap.insert _ _ _)[k]? = payloadOf (dropVersion replaced s.versions)[k]?
      rw [Table.lookup_insert, if_neg fun e => hk (congrArg Slot.version e)]
    · rfl

theorem moves_deleteObject (hw : WF s) {bucket : BucketId} {key : ObjectKey} {nm : NewDeleteMarker}
    {res : DeleteObjectResult} (hret : Returns (deleteObjectTx env bucket key nm) s res s')
    (hfresh : s.versions[nm.versionId.bytes]? = none) :
    Holdings.Moves none none s.holdings s'.holdings := by
  obtain ⟨record, s₁, r, -, hdel, t, e, -, rfl⟩ := deleteObjectTx_returns hret
  by_cases hv : record.versioning = .disabled
  · rw [hv] at hdel
    obtain ⟨removed, hnull, -, rfl, t', -, rfl⟩ := deleteCurrent_disabled hdel
    exact moves_dropVersion (fun r hr => (hnull.row hw.index hr).1) (fun _ => rfl) rfl rfl
  · obtain ⟨isNull, removed, -, hnull, -, rfl, t', -, rfl⟩ := deleteCurrent_marker hv hdel
    refine moves_dropVersion (fun r hr => (removed_row hw.index hnull r hr).1) (fun k => ?_) rfl rfl
    show payloadOf (Std.ExtTreeMap.insert _ _ _)[k]? = _
    rw [Table.lookup_insert]
    split_ifs with hk
    · rw [hk, lookup_dropVersion_none hfresh]
      rfl
    · rfl

/-- Every successful command moves the holdings; it brings its payload and reclaims what it completes. -/
theorem Applied.moves (happ : Applied env s c s') (hw : WF s)
    (hfresh : ∀ v, c.newVersion? = some v → s.versions[v.bytes]? = none) :
    Holdings.Moves c.newPayload? c.completed? s.holdings s'.holdings := by
  have same : ∀ {c' : MetadataCommand} {s₁ : Catalog}, s₁.versions = s.versions → s₁.parts = s.parts →
      s₁.cleanup = s.cleanup → Holdings.Moves c'.newPayload? c'.completed? s.holdings s₁.holdings := by
    intro c' s₁ hv hp hc
    rw [holdings_congr hv hp hc]
    exact .refl _
  cases happ with
  | createBucket hret =>
    obtain ⟨-, -, -, _, _, -, rfl⟩ := createBucketTx_returns hret
    exact same rfl rfl rfl
  | updateBucket _ _ hret =>
    obtain ⟨_, -, -, rfl⟩ := updateBucketTx_returns hret
    exact same rfl rfl rfl
  | deleteBucket hret =>
    obtain ⟨-, -, -, _, _, _, -, rfl⟩ := deleteBucketTx_returns hret
    exact same rfl rfl rfl
  | putObject hret => exact moves_putObject hw hret (hfresh _ rfl)
  | deleteObject hret => exact moves_deleteObject hw hret (hfresh _ rfl)
  | deleteObjectVersion hret =>
    rcases deleteObjectVersionTx_returns hret with rfl | ⟨r, res', hr, -, hrem⟩
    · exact .refl _
    · obtain ⟨-, ob, mk, u', cl, t, e, -, rfl⟩ := removeExactVersion_returns hrem
      have hrow : ∀ r', some r = some r' → s.versions[r'.versionId.bytes]? = some r' := by
        rintro _ ⟨⟩
        rw [← hw.index.key _ _ hr]
        exact hr
      exact moves_dropVersion hrow (fun _ => rfl) rfl rfl
  | putObjectLock hret =>
    obtain ⟨_, _, _, _, _, -, -, -, -, -, -, -, rfl⟩ := putObjectLockTx_returns hret
    exact same rfl rfl rfl
  | createUpload hret =>
    obtain ⟨-, -, rfl⟩ := createMultipartUploadTx_returns hret
    exact same rfl rfl rfl
  | putPart hret => exact moves_putPart hret
  | beginCompletion hret =>
    obtain ⟨_, _, -, -, rfl, rfl⟩ := beginMultipartCompletionTx_returns hret
    exact same rfl rfl rfl
  | removeUpload hret => exact (moves_removeUpload hw hret).mono
  | recover hret =>
    refine (recover_preserves (Q := fun s₀ => WF s₀ ∧ Holdings.Moves none none s.holdings s₀.holdings)
      (fun _ h => h.1) ?_ ?_ ⟨hw, .refl _⟩ hret).2
    · rintro s₀ s₁ id res ⟨hw₀, h₀⟩ hrem
      exact ⟨hw₀.removeUpload hrem, h₀.trans (moves_removeUpload hw₀ hrem)⟩
    · rintro s₀ up ⟨hw₀, h₀⟩ hup
      exact ⟨hw₀.setState hup _, h₀⟩
  | completeCleanup =>
    rename_i id
    refine .reclaim (p := id) rfl ?_
    ext p
    show ((s.cleanup.erase id.bytes)[p.bytes]?).isSome = true ↔ (s.cleanup[p.bytes]?).isSome = true ∧ p ≠ id
    rw [Table.lookup_erase]
    split_ifs with h
    · simp [Id.bytes_inj.mp h]
    · have hne : p ≠ id := fun e => h (e ▸ rfl)
      exact ⟨fun hp => ⟨hp, hne⟩, And.left⟩
  | aside => exact same rfl rfl rfl

end Moves

/-! ## Runs -/

section Runs

variable {cmds : List MetadataCommand}

theorem FreshPayloads.of_append {later : List MetadataCommand} (h : FreshPayloads (cmds ++ later)) :
    FreshPayloads cmds := by
  unfold FreshPayloads at *
  rw [List.filterMap_append, List.nodup_append] at h
  exact h.1

/-- A payload that an earlier command brought is not brought again. -/
theorem FreshPayloads.not_again {later : List MetadataCommand} (h : FreshPayloads (cmds ++ later)) {p : ObjectId}
    (hp : p ∈ cmds.filterMap (·.newPayload?)) (hc : c ∈ later) : c.newPayload? ≠ some p := by
  intro e
  unfold FreshPayloads at h
  rw [List.filterMap_append, List.nodup_append] at h
  exact h.2.2 p hp p (List.mem_filterMap.mpr ⟨c, hc, e⟩) rfl

theorem moves_run (env : Env) (hv : FreshVersions (cmds ++ [c])) :
    Holdings.Moves c.newPayload? c.completed? (run env cmds).holdings (run env (cmds ++ [c])).holdings :=
  run_step (P := fun s => Holdings.Moves c.newPayload? c.completed? (run env cmds).holdings s.holdings) hv
    (.refl _) fun _ hs hfresh happ => happ.moves hs.wf hfresh

theorem ref_empty {p : ObjectId} (a : Slot) : Catalog.empty.holdings.ref a ≠ some p := by
  intro ha
  cases a with
  | version k =>
    replace ha : payloadOf (∅ : Table Bytes ObjectVersionRecord)[k]? = some p := ha
    rw [Table.lookup_empty] at ha
    cases ha
  | part k =>
    replace ha : ((∅ : Table Bytes UploadedPart)[k]?).map (·.objectId) = some p := ha
    rw [Table.lookup_empty] at ha
    cases ha

/-- Every payload that a fresh run refers to or has queued was brought by one of its commands. -/
theorem safe_run (env : Env) (cmds : List MetadataCommand) (hv : FreshVersions cmds) (hp : FreshPayloads cmds) :
    (run env cmds).holdings.Safe ∧ ∀ p, (run env cmds).holdings.Referenced p ∨ p ∈ (run env cmds).holdings.queue →
      p ∈ cmds.filterMap (·.newPayload?) := by
  induction cmds using List.reverseRecOn with
  | nil =>
    refine ⟨⟨fun ha _ => absurd ha (ref_empty _), fun _ ⟨a, ha⟩ => ref_empty a ha⟩, ?_⟩
    rintro p (⟨a, ha⟩ | hq)
    · exact absurd ha (ref_empty a)
    · replace hq : ((∅ : Table Bytes UInt8)[p.bytes]?).isSome = true := hq
      rw [Table.lookup_empty] at hq
      cases hq
  | append_singleton cmds c ih =>
    obtain ⟨hsafe, hused⟩ := ih hv.of_append hp.of_append
    have hmoves := moves_run env hv
    refine ⟨hmoves.safe hsafe fun p hnew => ?_, fun p hor => ?_⟩
    · have hno : p ∉ cmds.filterMap (·.newPayload?) := fun hmem =>
        hp.not_again hmem (List.mem_singleton_self c) hnew
      exact ⟨fun hr => hno (hused p (.inl hr)), fun hq => hno (hused p (.inr hq))⟩
    · rw [List.filterMap_append]
      rcases hor with hr | hq
      · rcases hmoves.brought hr with hold | hnew
        · exact List.mem_append_left _ (hused p (.inl hold))
        · exact List.mem_append_right _ (by simp [hnew])
      · exact List.mem_append_left _ (hused p ((hmoves.queued hq).symm))

/-- A payload that loses its last reference is queued, stays without a reference, and stays queued until
a command completes its cleanup. -/
theorem dropped_run {p : ObjectId} (hbrought : p ∈ cmds.filterMap (·.newPayload?))
    (hno : ¬ (run env cmds).holdings.Referenced p) (hq : p ∈ (run env cmds).holdings.queue)
    (later : List MetadataCommand) (hv : FreshVersions (cmds ++ later)) (hp : FreshPayloads (cmds ++ later)) :
    ¬ (run env (cmds ++ later)).holdings.Referenced p ∧
      (.completeCleanup p ∉ later → p ∈ (run env (cmds ++ later)).holdings.queue) := by
  induction later using List.reverseRecOn with
  | nil =>
    rw [List.append_nil]
    exact ⟨hno, fun _ => hq⟩
  | append_singleton later c ih =>
    have hnew : c.newPayload? ≠ some p := hp.not_again hbrought (by simp)
    rw [← List.append_assoc] at hv hp ⊢
    obtain ⟨hr, hq'⟩ := ih hv.of_append hp.of_append
    have hmoves := moves_run env hv
    refine ⟨fun hr' => (hmoves.brought hr').elim hr hnew, fun hc => ?_⟩
    rcases hmoves.kept (hq' fun hmem => hc (List.mem_append_left _ hmem)) with hkept | hdone
    · exact hkept
    · -- only the completion of this cleanup takes it out
      cases c <;> simp only [MetadataCommand.completed?, reduceCtorEq, Option.some.injEq] at hdone
      exact absurd (by simp [hdone]) hc

/-- The command at which a payload loses its last reference. -/
theorem exists_drop {p : ObjectId} (hr : (run env cmds).holdings.Referenced p) (later : List MetadataCommand)
    (hno : ¬ (run env (cmds ++ later)).holdings.Referenced p) :
    ∃ before c after, later = before ++ c :: after ∧ (run env (cmds ++ before)).holdings.Referenced p ∧
      ¬ (run env (cmds ++ before ++ [c])).holdings.Referenced p := by
  induction later using List.reverseRecOn with
  | nil =>
    rw [List.append_nil] at hno
    exact absurd hr hno
  | append_singleton later c ih =>
    by_cases hlast : (run env (cmds ++ later)).holdings.Referenced p
    · exact ⟨later, c, [], rfl, hlast, by rwa [List.append_assoc]⟩
    · obtain ⟨before, c', after, rfl, h1, h2⟩ := ih hlast
      exact ⟨before, c', after ++ [c], by simp, h1, h2⟩

/-- Nothing queued is referred to; and a payload that was ever referred to and no longer is was queued by
the command that dropped its last reference, and stays queued until its cleanup is completed. -/
theorem payload_reclamation_exact (env : Env) (cmds : List MetadataCommand) (hv : FreshVersions cmds)
    (hp : FreshPayloads cmds) :
    (∀ p, (run env cmds).queued p = true → (run env cmds).payloadReferenced p = false) ∧
    ∀ p, (∃ early, early <+: cmds ∧ (run env early).payloadReferenced p = true) →
      (run env cmds).payloadReferenced p = false →
      ∃ before c after, cmds = before ++ c :: after ∧ (run env before).payloadReferenced p = true ∧
        (run env before).queued p = false ∧
        ∀ since, since <+: after → (run env (before ++ c :: since)).payloadReferenced p = false ∧
          (.completeCleanup p ∉ since → (run env (before ++ c :: since)).queued p = true) := by
  simp only [← Bool.not_eq_true, payloadReferenced_iff]
  obtain ⟨hsafe, -⟩ := safe_run env cmds hv hp
  refine ⟨fun p hq => hsafe.disjoint hq, ?_⟩
  rintro p ⟨early, ⟨later, rfl⟩, hr⟩ hno
  obtain ⟨mid, c, after, rfl, hr₁, hno₁⟩ := exists_drop hr later hno
  rw [show early ++ (mid ++ c :: after) = (early ++ mid ++ [c]) ++ after by simp] at hv hp
  obtain ⟨hsafe₁, hused₁⟩ := safe_run env (early ++ mid) hv.of_append.of_append hp.of_append.of_append
  have hbrought : p ∈ (early ++ mid ++ [c]).filterMap (·.newPayload?) := by
    rw [List.filterMap_append]
    exact List.mem_append_left _ (hused₁ p (.inl hr₁))
  have hq : p ∈ (run env (early ++ mid ++ [c])).holdings.queue :=
    ((moves_run env hv.of_append).dropped hr₁).resolve_left hno₁
  refine ⟨early ++ mid, c, after, by simp, hr₁, fun hq₁ => hsafe₁.disjoint hq₁ hr₁, ?_⟩
  rintro since ⟨rest, rfl⟩
  rw [← List.append_assoc] at hv hp
  rw [show early ++ mid ++ c :: since = (early ++ mid ++ [c]) ++ since by simp]
  exact dropped_run hbrought hno₁ hq since hv.of_append hp.of_append

/-- An overwritten object: its payload is queued by the second write. -/
theorem payload_reclamation_exact_overwrite :
    FreshVersions Sample.overwrite ∧ FreshPayloads Sample.overwrite ∧
      (run Sample.env Sample.overwrite).queued (.ofNat 10) = true ∧
      (run Sample.env Sample.overwrite).payloadReferenced (.ofNat 10) = false := by
  refine ⟨by decide, by decide, by decide, ?_⟩
  exact (payload_reclamation_exact Sample.env Sample.overwrite (by decide) (by decide)).1 _ (by decide)

end Runs

end RecordStore.Metadata

import RecordStore.Lifecycle.Steps

/-!
# Lifecycle.Prefix — what a rule's cursor reaches

Both listings end at the successor of the rule's prefix and start at the rule's cursor.  The cursor is kept
under the rule's identifier and outlives a change of the prefix, so that a page can start below the prefix.
A walk over `VERSION_ORDER` also takes a prefix that ends in a zero byte for the end of a key.
-/

namespace RecordStore.Lifecycle

open RecordStore.Lib RecordStore.Core RecordStore.Metadata

/-! ## Ranges that start at or after the prefix -/

section Ranges

/-- A key that does not sort below a prefix stays so with what is appended. -/
theorem isLE_objectPrefix_append {bucket : BucketId} {a b : String} (h : compare (asBytes b) (asBytes a) ≠ .lt)
    (x : Bytes) : (compare (objectPrefix bucket a) (objectPrefix bucket b ++ x)).isLE = true := by
  refine Std.TransCmp.isLE_trans ?_ (isLE_compare_append _ x)
  unfold objectPrefix
  rw [compare_append]
  rw [← Std.OrientedCmp.isGE_iff_isLE, Ordering.isGE_iff_ne_lt]
  exact h

end Ranges

/-! ## Pages under the prefix -/

section Pages

variable {cfg : Settings} {s : Catalog} {rule : LifecycleRule} {cursor : RuleCursor}

/-- The key starts with the rule's prefix. -/
def Covers (rule : LifecycleRule) (key : ObjectKey) : Prop := asBytes rule.keyPrefix <+: key.bytes

instance (rule : LifecycleRule) (key : ObjectKey) : Decidable (Covers rule key) := inferInstanceAs (Decidable (_ <+: _))

theorem covers_of_objectKey (bucket : BucketId) {key : ObjectKey}
    (h : objectPrefix rule.bucketId rule.keyPrefix <+: objectKey bucket key) : Covers rule key := by
  obtain ⟨y, hy⟩ := h
  rw [objectPrefix, List.append_assoc] at hy
  exact ⟨y, (bytes_append_inj hy).2⟩

/-- Without a zero byte the prefix ends before the zero that ends the key. -/
theorem covers_of_versionOrderKey {r : ObjectVersionRecord} (hzero : 0 ∉ asBytes rule.keyPrefix)
    (h : objectPrefix rule.bucketId rule.keyPrefix <+: versionOrderKey r) : Covers rule r.key := by
  obtain ⟨y, hy⟩ := h
  have hshape : versionOrderKey r = r.bucketId.bytes ++ (r.key.bytes ++ 0 ::
      (beBytes 8 (0xffffffffffffffff - r.createdAt.clampedMicros).toNat ++ r.versionId.bytes)) := by
    simp [versionOrderKey, exactVersionPrefix, objectKey, objectPrefix, ObjectKey.bytes]
  rw [hshape, objectPrefix, List.append_assoc] at hy
  have hpre : asBytes rule.keyPrefix <+: r.key.bytes ++ 0 :: _ := ⟨y, (bytes_append_inj hy).2⟩
  rcases List.prefix_or_prefix_of_prefix hpre (List.prefix_append _ _) with hkey | ⟨z, hz⟩
  · exact hkey
  · -- the prefix would go on with the zero
    rw [← hz, List.prefix_append_right_inj] at hpre
    cases z with
    | nil =>
      rw [List.append_nil] at hz
      exact ⟨[], by rw [List.append_nil, hz]⟩
    | cons b z =>
      obtain ⟨rfl, -⟩ := List.cons_prefix_cons.mp hpre
      exact absurd (hz ▸ List.mem_append_right _ List.mem_cons_self) hzero

/-- The page of current objects starts at the prefix or after a key that does not sort below it. -/
def ObjectsAnchored (rule : LifecycleRule) (cursor : RuleCursor) : Prop :=
  ∀ k ∈ cursor.currentKey, compare (asBytes k) (asBytes rule.keyPrefix) ≠ .lt

/-- The page of versions starts so too, and the prefix has no zero byte. -/
def VersionsAnchored (rule : LifecycleRule) (cursor : RuleCursor) : Prop :=
  0 ∉ asBytes rule.keyPrefix ∧ ∀ k ∈ cursor.versionKey, compare (asBytes k) (asBytes rule.keyPrefix) ≠ .lt

theorem covers_of_listObjects (hw : WF s) (ha : ObjectsAnchored rule cursor) {o : ObjectMetadata}
    (h : o ∈ (listObjects s (objectsRequest cfg rule cursor)).objects) : Covers rule o.key := by
  obtain ⟨k, hrow, hrange⟩ := mem_listObjects h
  refine covers_of_objectKey o.bucketId ?_
  rw [← (hw.pointers.object k o hrow).1]
  refine prefix_of_inRange_from ?_ hrange
  unfold objectStart
  simp only [objectsRequest]
  cases hcur : cursor.currentKey with
  | none => exact Std.ReflCmp.isLE_rfl
  | some key => exact isLE_objectPrefix_append (ha key hcur) [0]

theorem covers_of_listObjectVersions (hw : WF s) (ha : VersionsAnchored rule cursor) {page : ObjectVersionPage}
    (hlist : listObjectVersions s (versionsRequest cfg rule cursor) = .ok page) {v : ListedObjectVersion}
    (h : v ∈ page.versions) : Covers rule v.record.key := by
  obtain ⟨-, -, start, hstart, hrange⟩ := mem_listObjectVersions hw.index hlist h
  refine covers_of_versionOrderKey ha.1 (prefix_of_inRange_from ?_ hrange)
  obtain ⟨-, rfl⟩ | ⟨id, r, hkey, -, -, hb, rfl⟩ := versionStart_cases hstart
  · exact Std.ReflCmp.isLE_rfl
  · have hshape : versionOrderKey r ++ [0] = objectPrefix rule.bucketId r.key.value ++
        ([0] ++ beBytes 8 (0xffffffffffffffff - r.createdAt.clampedMicros).toNat ++ r.versionId.bytes ++ [0]) := by
      simp only [versionOrderKey, exactVersionPrefix, objectKey, hb, versionsRequest, List.append_assoc]
    rw [hshape]
    exact isLE_objectPrefix_append (ha.2 _ hkey) _

end Pages

/-! ## Every run -/

namespace System

/-- Each page is read from a cursor that does not lie below the rule's prefix. -/
def Anchored (w : System) : Event → Prop
  | .page _ => ∀ t ∈ w.turn,
    match t.stage with
    | .start => t.rule.expiration.isSome = true → ObjectsAnchored t.rule t.cursor
    | .between => t.rule.noncurrentVersionExpiration.isSome = true → VersionsAnchored t.rule t.cursor
    | .objects _ _ | .versions _ _ _ | .finish => True
  | _ => True

variable {cfg : Settings} {w : System} {s : Catalog} {cursors : Table Bytes RuleCursor} {events : List Event}

/-- In every run whose pages are read from anchored cursors, every delete of a rule is of a key that starts with the
prefix that the rule has in that pass. -/
theorem deletes_stay_under_prefix (hs : Metadata.Sound s)
    (hfresh : Meets (step cfg) FreshIds (idle ⟨s, cursors⟩ [] []) events)
    (hanchored : Meets (step cfg) Anchored (idle ⟨s, cursors⟩ [] []) events)
    (hrun : Lib.run (step cfg) (idle ⟨s, cursors⟩ [] []) events = some w) :
    ∀ c ∈ w.calls, Covers c.job.rule c.item.key := by
  have hinit : Holds (fun rule _ item => Covers rule item.key) (fun c => Covers c.job.rule c.item.key)
      (idle ⟨s, cursors⟩ [] []) :=
    ⟨hs, fun t ht => absurd ht (Option.some_ne_none t).symm, fun c hc => absurd hc List.not_mem_nil⟩
  refine (run_invariant (fun w e w' h hok hstep => ?_) events hinit (hfresh.and hanchored) hrun).calls
  refine h.step hok.1 ?_ ?_ ?_ hstep
  · rintro t ht hstage hexp ⟨now, rfl⟩ o ho
    have ha := hok.2 t ht
    rw [hstage] at ha
    exact covers_of_listObjects h.sound.wf (ha hexp) ho
  · rintro t page ht hstage hexp ⟨now, rfl⟩ hlist v hv
    have ha := hok.2 t ht
    rw [hstage] at ha
    exact covers_of_listObjectVersions h.sound.wf (ha hexp) hlist hv
  · rintro t tick item cutoff stage - - - - hq
    exact hq

end System

namespace Trial

def a : ObjectKey := Metadata.Sample.key
def b : ObjectKey := Metadata.Sample.otherKey
def bb : ObjectKey := ⟨"bb", by decide⟩

/-- Three objects, and two passes of a rule for two of them: the second pass reads from the cursors of the first. -/
def resumed : List Event :=
  [.command (bucket .enabled), .command (old a 10), .command (old b 11), .command (old bb 12),
    .command (.putLifecycleRule (rule "b" true true))] ++ pass 20 ++ pass 22

/-- Two objects, and a pass of a rule for both of them. -/
def firstPass : List Event :=
  [.command (bucket .disabled), .command (old a 10), .command (old b 11),
    .command (.putLifecycleRule (rule "" true false))] ++ expiry 20

/-- The rule's prefix is replaced before its second pass. -/
def afterEdit : List Event := firstPass ++ [.command (.putLifecycleRule (rule "c" true false))] ++ expiry 21

end Trial

namespace System

instance {w : System} {e : Event} : Decidable (w.Anchored e) :=
  match e with
  | .page _ =>
    have (t : Turn) : Decidable (match t.stage with
        | .start => t.rule.expiration.isSome = true → ObjectsAnchored t.rule t.cursor
        | .between => t.rule.noncurrentVersionExpiration.isSome = true → VersionsAnchored t.rule t.cursor
        | .objects _ _ | .versions _ _ _ | .finish => True) := by
      unfold ObjectsAnchored VersionsAnchored
      split <;> infer_instance
    inferInstanceAs (Decidable (∀ t ∈ w.turn, _))
  | .command _ | .list | .rule | .visit _ | .endPage | .write | .stop => isTrue trivial

/-- The deletes of a run: the prefix of the rule, the key and the answer. -/
def deleted (w : System) : List (String × ObjectKey × Answer) :=
  w.calls.map fun c => (c.job.rule.keyPrefix, c.item.key, (c.outcome Trial.cfg).1)

/-- The second pass deletes the object after the cursor, and the version that the first pass made noncurrent. -/
theorem deletes_stay_under_prefix_resumed : ∃ w,
    Lib.run (step Trial.cfg) (idle ⟨.empty, ∅⟩ [] []) Trial.resumed = some w ∧
    w.deleted = [("b", Trial.b, .expired), ("b", Trial.bb, .expired), ("b", Trial.b, .expired)] ∧
    ∀ c ∈ w.calls, Covers c.job.rule c.item.key :=
  exists_and_of (by decide +kernel) fun _ hrun _ =>
    deletes_stay_under_prefix sound_empty (by decide +kernel) (by decide +kernel) hrun

/-- The second pass goes on after the key of the first one and deletes an object that the rule no longer covers. -/
theorem cursor_outlives_prefix : ∃ w, Lib.run (step Trial.cfg) (idle ⟨.empty, ∅⟩ [] []) Trial.afterEdit = some w ∧
    ∃ c ∈ w.calls, c.job.rule.keyPrefix = "c" ∧ c.item.key = Trial.b ∧ (c.outcome Trial.cfg).1 = .expired ∧
      ¬ Covers c.job.rule c.item.key := by
  decide +kernel

end System

end RecordStore.Lifecycle

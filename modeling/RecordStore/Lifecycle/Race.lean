import RecordStore.Lifecycle.Steps
import RecordStore.Metadata.Retention

/-!
# Lifecycle.Race — what an expiry finds when it deletes

An expiry is decided on a page and made later.  The delete of an object names the key only, and the delete of
a version names a version that can have become the current one.  An ordinary delete also removes the key's null
version in a bucket that is not versioned, whichever version is current.
-/

namespace RecordStore.Lifecycle

open RecordStore.Lib RecordStore.Core RecordStore.Metadata Tx

/-! ## What a delete may remove -/

namespace Call

variable (cfg : Settings)

/-- The delete takes the object out of sight or out of the history. -/
def Loses (c : Call) (m : ObjectMetadata) : Prop :=
  (∃ k : Bytes, c.before.objects[k]? = some m ∧ (c.outcome cfg).2.objects[k]? ≠ some m) ∨
    ∃ (k : Bytes) (isNull : Bool), c.before.versions[k]? = some (.object m isNull) ∧
      (c.outcome cfg).2.versions[k]? = none

/-- An expiration loses nothing but a current object that is past the cutoff, and the expiry of a version removes none
that is current. -/
def Timely (c : Call) : Prop :=
  match c.item with
  | .object _ => ∀ m, c.Loses cfg m →
      c.before.objects[objectKey m.bucketId m.key]? = some m ∧ c.job.cutoff.covers m.modifiedAt = true
  | .version _ => ∀ (k : Bytes) (r : ObjectVersionRecord), c.before.versions[k]? = some r →
      (c.outcome cfg).2.versions[k]? = none → c.before.currentVersion (objectKey r.bucketId r.key) ≠ some r.versionId

end Call

/-- The entry is as its page showed it.  For an object: it is the key's current object, and a delete in a bucket that is
not versioned removes no other object.  For a version: the key has the current version that it had then. -/
def Untouched (s : Catalog) (name : BucketName) (rule : LifecycleRule) (seen : Option Catalog) (item : Item) : Prop :=
  ∀ b ∈ s.bucketNames[name.value]?,
    match item with
    | .object o => s.objects[objectKey b.id o.key]? = some o ∧ (b.versioning ≠ .enabled →
        ∀ id ∈ s.nullVersions[objectKey b.id o.key]?, ∀ r ∈ s.versions[id]?, ∀ m ∈ r.asObject, m = o)
    | .version v => ∀ s₀ ∈ seen,
        s.currentVersion (objectKey b.id v.record.key) = s₀.currentVersion (objectKey rule.bucketId v.record.key)

/-- The entry came from a page: a version is marked as the latest if it was so in the catalog that the page was read
from. -/
def FromPage (rule : LifecycleRule) (seen : Option Catalog) : Item → Prop
  | .object _ => True
  | .version v => ∃ s₀, seen = some s₀ ∧
      v.isLatest = decide (s₀.currentVersion (objectKey rule.bucketId v.record.key) = some v.record.versionId)

section Deletes

variable {cfg : Settings} {tick : Tick} {s : Catalog} {seen : Option Catalog}

/-- A row that a removed null version leaves is that version's. -/
theorem dropVersion_eq_none (hw : VersionIndex s.versions s.versionOrder s.nullVersions) {bucket : BucketId}
    {key : ObjectKey} {removed : Option ObjectVersionRecord} (hnull : NullVersion s bucket key removed) {k : Bytes}
    {r : ObjectVersionRecord} (hr : s.versions[k]? = some r) (hgone : (dropVersion removed s.versions)[k]? = none) :
    ∃ id, s.nullVersions[objectKey bucket key]? = some id ∧ s.versions[id]? = some r := by
  obtain ⟨-, rfl⟩ | ⟨id, r', hid, hr', rfl⟩ := hnull
  · rw [dropVersion, Option.elim_none, hr] at hgone
    cases hgone
  · rw [dropVersion, Option.elim_some, Table.lookup_erase, ← hw.key id r' hr'] at hgone
    split_ifs at hgone with hk
    · rw [hk] at hr
      exact ⟨id, hid, hr⟩
    · rw [hr] at hgone
      cases hgone

theorem timely_object (job : Job) (hw : WF s) {o : ObjectMetadata} (hdue : (Item.object o).due job.cutoff = true)
    (hsame : Untouched s job.name job.rule seen (.object o)) : Call.Timely cfg ⟨job, .object o, tick, s⟩ := by
  intro m hloses
  have hkept : ∀ s', s' = s → ¬ ((∃ k : Bytes, s.objects[k]? = some m ∧ s'.objects[k]? ≠ some m) ∨
      ∃ (k : Bytes) (isNull : Bool), s.versions[k]? = some (.object m isNull) ∧ s'.versions[k]? = none) := by
    rintro _ rfl (⟨k, hk, hne⟩ | ⟨k, isNull, hk, hnone⟩)
    · exact hne hk
    · rw [hk] at hnone
      cases hnone
  rcases delete_object_cases cfg tick job.name s o with
    ⟨-, hs⟩ | ⟨b, res, hb, hret, -⟩
  · exact absurd hloses (hkept _ hs)
  · obtain ⟨hcur, hnulls⟩ := hsame b hb
    have hkey : objectKey b.id o.key = objectKey o.bucketId o.key := (hw.pointers.object _ o hcur).1
    have hgoal : m = o → s.objects[objectKey m.bucketId m.key]? = some m ∧ job.cutoff.covers m.modifiedAt = true := by
      rintro rfl
      exact ⟨hkey ▸ hcur, hdue⟩
    have hhides := hides_of_returns hret
    refine hgoal ?_
    rcases hloses with ⟨k, hk, hne⟩ | ⟨k, isNull, hk, hnone⟩
    · -- only the key's own row goes
      simp only [Call.outcome] at hk hne
      rw [hhides.objects, Table.lookup_erase] at hne
      split_ifs at hne with hkk
      · rw [hkk, hcur] at hk
        exact (Option.some.inj hk).symm
      · exact absurd hk hne
    · simp only [Call.outcome] at hk hnone
      obtain ⟨record, removed, hrec, hwhich, hvers⟩ := hhides.removed
      obtain rfl : b = record := Option.some.inj ((hw.buckets.name _ b hb).2.symm.trans hrec)
      have hgone : (dropVersion removed s.versions)[k]? = none := by
        rcases hvers with hvers | ⟨r, hvers⟩
        · rw [hvers] at hnone
          exact hnone
        · rw [hvers, Table.lookup_insert] at hnone
          split_ifs at hnone
          exact hnone
      by_cases hv : b.versioning = .enabled
      · rw [if_pos hv] at hwhich
        rw [hwhich, dropVersion, Option.elim_none, hk] at hgone
        cases hgone
      · rw [if_neg hv] at hwhich
        obtain ⟨id, hid, hr⟩ := dropVersion_eq_none hw.index hwhich hk hgone
        exact hnulls hv id hid _ hr m rfl

theorem timely_version (job : Job) (hw : WF s) {v : ListedObjectVersion} (hdue : (Item.version v).due job.cutoff = true)
    (hpage : FromPage job.rule seen (.version v)) (hsame : Untouched s job.name job.rule seen (.version v)) :
    Call.Timely cfg ⟨job, .version v, tick, s⟩ := by
  intro k r hr hnone
  simp only [Call.outcome] at hr hnone
  rcases delete_version_cases cfg tick job.name s v with
    ⟨-, hs⟩ | ⟨b, r', res, hb, hr', hmatch, -, hret⟩
  · rw [hs, hr] at hnone
    cases hnone
  · obtain ⟨-, ob, mk, u', c, t, e, -, hs⟩ := removeExactVersion_returns hret
    rw [hs] at hnone
    dsimp only at hnone
    have hid : r'.versionId = v.record.versionId := (Id.bytes_inj.mp (hw.index.key _ r' hr')).symm
    rw [Table.lookup_erase] at hnone
    split_ifs at hnone with hk
    · rw [hk, hid, hr', Option.some.injEq] at hr
      subst hr
      obtain ⟨s₀, hseen, hlatest⟩ := hpage
      have hnot : v.isLatest = false := by
        simp only [Item.due, Bool.and_eq_true, Bool.not_eq_true'] at hdue
        exact hdue.1
      rw [hmatch.1, hmatch.2, hid, hsame b hb s₀ hseen]
      rw [hnot] at hlatest
      exact of_decide_eq_false hlatest.symm
    · rw [hr] at hnone
      cases hnone

end Deletes

/-! ## Every run -/

namespace System

/-- Each entry that is deleted is as its page showed it. -/
def Undisturbed (w : System) : Event → Prop
  | .visit _ => ∀ t ∈ w.turn, ∀ n ∈ t.next, n.1.due n.2.1 = true → Untouched w.catalog t.name t.rule t.stage.seen n.1
  | _ => True

variable {cfg : Settings} {w : System} {s : Catalog} {cursors : Table Bytes RuleCursor} {events : List Event}

/-- In every run whose entries are untouched when they are deleted, each expiration loses current objects past the
cutoff only, and each expiry of a version removes versions that are not current only. -/
theorem expiries_are_timely (hs : Metadata.Sound s)
    (hfresh : Meets (step cfg) FreshIds (idle ⟨s, cursors⟩ [] []) events)
    (hok : Meets (step cfg) Undisturbed (idle ⟨s, cursors⟩ [] []) events)
    (hrun : Lib.run (step cfg) (idle ⟨s, cursors⟩ [] []) events = some w) : ∀ c ∈ w.calls, c.Timely cfg := by
  have hinit : Holds FromPage (Call.Timely cfg) (idle ⟨s, cursors⟩ [] []) :=
    ⟨hs, fun t ht => absurd ht (Option.some_ne_none t).symm, fun c hc => absurd hc List.not_mem_nil⟩
  refine (run_invariant (fun w e w' h hok hstep => ?_) events hinit (hfresh.and hok) hrun).calls
  refine h.step hok.1 ?_ ?_ ?_ hstep
  · rintro t - - - - o -
    trivial
  · rintro t page - - - - hlist v hv
    obtain ⟨-, hlisted, -⟩ := mem_listObjectVersions h.sound.wf.index hlist hv
    exact ⟨w.catalog, rfl, congrArg ListedObjectVersion.isLatest hlisted⟩
  · rintro t tick item cutoff stage ht rfl hnext hdue hpage
    have hsame := hok.2 t ht (item, cutoff, stage) hnext hdue
    cases item with
    | object o => exact timely_object ⟨t.rule, t.name, cutoff⟩ h.sound.wf hdue hsame
    | version v => exact timely_version ⟨t.rule, t.name, cutoff⟩ h.sound.wf hdue hpage hsame

end System

/-! ## Runs with and without another caller -/

instance {s : Catalog} {name : BucketName} {rule : LifecycleRule} {seen : Option Catalog} {item : Item} :
    Decidable (Untouched s name rule seen item) :=
  match item with
  | .object _ => inferInstanceAs (Decidable (∀ b ∈ s.bucketNames[name.value]?, _))
  | .version _ => inferInstanceAs (Decidable (∀ b ∈ s.bucketNames[name.value]?, _))

instance {w : System} {e : Event} : Decidable (w.Undisturbed e) :=
  match e with
  | .visit _ => inferInstanceAs (Decidable (∀ t ∈ w.turn, _))
  | .command _ | .list | .rule | .page _ | .endPage | .write | .stop => isTrue trivial

namespace Trial

def key : ObjectKey := Metadata.Sample.key

/-- The row of the key in the trial's bucket. -/
def row : Bytes := objectKey (.ofNat 1) key

/-- An object that was written a moment ago. -/
def young (n : Nat) : ObjectMetadata := { Metadata.Sample.object n n 5 with createdAt := now, modifiedAt := now }

/-- An old object, and the page that shows it. -/
def shown : List Event :=
  [.command (bucket .disabled), .command (old key 10), .command (.putLifecycleRule (rule "" true false)), .list, .rule,
    .page now]

/-- The object is replaced between its page and its delete. -/
def replaced : List Event := shown ++ [.command (.putObject (young 12) none .direct), .visit (tick 20)]

/-- An old version, the page that shows it, and the deletion of the version that was current then. -/
def promoted : List Event :=
  [.command (bucket .enabled), .command (old key 10), .command (.putObject (young 12) none .direct),
    .command (.putLifecycleRule (rule "" false true)), .list, .rule, .page now, .page now, .visit (tick 20), .endPage,
    .write, .list, .rule, .page now, .page now,
    .command (.deleteObjectVersion (.ofNat 1) key (.ofNat 12) ⟨now, 0, false⟩), .visit (tick 21)]

/-- A replaced object and one that is old, and two passes of a rule for objects and versions. -/
def alone : List Event :=
  [.command (bucket .enabled), .command (old key 10), .command (.putObject (young 12) none .direct),
    .command (old Metadata.Sample.otherKey 11), .command (.putLifecycleRule (rule "" true true))] ++ pass 20 ++ pass 22

/-- Whether the call removes a version that is current. -/
def removesCurrent (c : Call) : Bool :=
  match c.item with
  | .object _ => false
  | .version v => match c.before.versions[v.record.versionId.bytes]? with
    | none => false
    | some r => decide ((c.outcome cfg).2.versions[v.record.versionId.bytes]? = none ∧
        c.before.currentVersion (objectKey r.bucketId r.key) = some r.versionId)

/-- For each call, whether it is of a version, and the answer. -/
def answers (w : System) : List (Bool × Answer) :=
  w.calls.map fun c => (match c.item with | .object _ => false | .version _ => true, (c.outcome cfg).1)

end Trial

namespace System

/-- Nothing happens between a page and its deletes: the old object is hidden, and the replaced version is removed. -/
theorem expiries_are_timely_alone :
    ∃ w, Lib.run (step Trial.cfg) (idle ⟨.empty, ∅⟩ [] []) Trial.alone = some w ∧
      Trial.answers w = [(false, .expired), (true, .expired)] ∧ ∀ c ∈ w.calls, c.Timely Trial.cfg := by
  exact exists_and_of (by decide +kernel) fun w hrun _ =>
    expiries_are_timely sound_empty (by decide +kernel) (by decide +kernel) hrun

/-- A fresh object is lost: it replaced the one that the page showed.  And a version is removed while it is current: the
one that was current on the page has been deleted. -/
theorem stale_page_deletes :
    (∃ w c, Lib.run (step Trial.cfg) (idle ⟨.empty, ∅⟩ [] []) Trial.replaced = some w ∧ c ∈ w.calls ∧
      c.Loses Trial.cfg (Trial.young 12) ∧ c.job.cutoff.covers (Trial.young 12).modifiedAt = false) ∧
    ∃ w c v r, Lib.run (step Trial.cfg) (idle ⟨.empty, ∅⟩ [] []) Trial.promoted = some w ∧ c ∈ w.calls ∧
      c.item = .version v ∧ c.before.versions[v.record.versionId.bytes]? = some r ∧
      (c.outcome Trial.cfg).2.versions[v.record.versionId.bytes]? = none ∧
      c.before.currentVersion (objectKey r.bucketId r.key) = some r.versionId := by
  constructor
  · obtain ⟨w, hrun, c, hc, hbefore, hafter, hyoung⟩ :
        ∃ w, Lib.run (step Trial.cfg) (idle ⟨.empty, ∅⟩ [] []) Trial.replaced = some w ∧ ∃ c ∈ w.calls,
          c.before.objects[Trial.row]? = some (Trial.young 12) ∧ (c.outcome Trial.cfg).2.objects[Trial.row]? = none ∧
          c.job.cutoff.covers (Trial.young 12).modifiedAt = false := by decide +kernel
    exact ⟨w, c, hrun, hc, .inl ⟨Trial.row, hbefore, by rw [hafter]; simp⟩, hyoung⟩
  · obtain ⟨w, hrun, c, hc, hdec⟩ : ∃ w, Lib.run (step Trial.cfg) (idle ⟨.empty, ∅⟩ [] []) Trial.promoted = some w ∧
        ∃ c ∈ w.calls, Trial.removesCurrent c = true := by decide +kernel
    rw [Trial.removesCurrent] at hdec
    cases hitem : c.item with
    | object o =>
      rw [hitem] at hdec
      cases hdec
    | version v =>
      rw [hitem] at hdec
      cases hr : c.before.versions[v.record.versionId.bytes]? with
      | none =>
        simp only [hr] at hdec
        cases hdec
      | some r =>
        simp only [hr] at hdec
        obtain ⟨hafter, hcurrent⟩ := of_decide_eq_true hdec
        exact ⟨w, c, v, r, hrun, hc, hitem, hr, hafter, hcurrent⟩

/-! ## Versions under legal hold -/

/-- The version has its row and its legal hold. -/
def Keeps (v : VersionId) (row : Option ObjectVersionRecord) (s : Catalog) : Prop :=
  Metadata.Sound s ∧ s.versions[v.bytes]? = row ∧ Held s v

/-- Another caller's command does not lift the hold. -/
def LeavesHold (v : VersionId) (e : Event) : Prop := ∀ c, e = .command c → ¬ c.liftsHold v

variable {cfg : Settings} {w w' : System} {v : VersionId} {row : Option ObjectVersionRecord}

theorem keeps_step {e : Event} (h : Keeps v row w.catalog) (hfresh : w.FreshIds e) (hno : LeavesHold v e)
    (hs : step cfg w e = some w') : Keeps v row w'.catalog := by
  have happ : ∀ c s', Applied cfg.env w.catalog c s' →
      (∀ u, c.newVersion? = some u → w.catalog.versions[u.bytes]? = none) → ¬ c.liftsHold v → Keeps v row s' := by
    intro c s' happ hnew hc
    obtain ⟨hv, hheld⟩ := h.1.held_step happ hnew h.2.2 hc
    exact ⟨h.1.step happ hnew, hv.trans h.2.1, hheld⟩
  cases e with
  | command c =>
    cases hs
    exact step_preserves h fun s' hc => happ c s' hc hfresh (hno c rfl)
  | visit tick =>
    obtain ⟨t, -, hs⟩ := Option.bind_eq_some_iff.mp hs
    obtain ⟨⟨item, cutoff, stage⟩, -, hs⟩ := Option.bind_eq_some_iff.mp hs
    have hx := visit_cases cfg ⟨t.rule, t.name, cutoff⟩ tick ⟨w.catalog, t.result, w.calls, none⟩ item
    have hkept : Keeps v row (item.delete cfg tick t.name w.catalog).2 := by
      unfold Item.delete
      split
      · exact h
      · cases item with
        | object o =>
          refine commit_preserves h fun _ s' hret => happ _ s' (.deleteObject hret) (fun u hu => ?_) id
          cases hu
          exact hfresh
        | version u =>
          exact commit_preserves h fun _ s' hret => happ _ s' (.deleteObjectVersion hret) (fun _ hu => (by cases hu)) id
    cases Option.some.inj hs
    rcases hx with ⟨hx, -⟩ | ⟨-, hx, -⟩
    · split <;> exact hx ▸ h
    · split <;> exact hx ▸ hkept
  | _ =>
    have hsame : w'.catalog = w.catalog := by
      simp only [step, beginRule, readPage, Option.bind_eq_some_iff] at hs
      grind [leave, goOn]
    exact hsame ▸ h

/-- Wherever the worker stands, and whatever others do short of lifting it, a legal hold keeps its version. -/
theorem held_versions_outlive_expiry (hsound : Metadata.Sound w.catalog) (hheld : Held w.catalog v)
    (events : List Event)
    (hfresh : Meets (step cfg) FreshIds w events) (hno : Meets (step cfg) (fun _ => LeavesHold v) w events)
    (hrun : Lib.run (step cfg) w events = some w') :
    w'.catalog.versions[v.bytes]? = w.catalog.versions[v.bytes]? ∧ Held w'.catalog v := by
  have hinit : Keeps v (w.catalog.versions[v.bytes]?) w.catalog := ⟨hsound, rfl, hheld⟩
  exact (run_invariant (P := fun x => Keeps v _ x.catalog) (fun x e x' h hok => keeps_step h hok.1 hok.2) events hinit
    (hfresh.and hno) hrun).2

/-- A pass expires an old object under hold: a marker hides it, and its version stays. -/
theorem held_versions_outlive_expiry_pass : ∃ w w',
    Lib.run (step Trial.cfg) w (Trial.expiry 20) = some w' ∧ Held w'.catalog (.ofNat 10) := by
  let w := idle ⟨Metadata.run Metadata.Sample.env [.createBucket (Metadata.Sample.bucket .enabled (some ⟨none⟩)),
    .putObject (Metadata.Sample.object 10 10 5) (some ⟨none, true⟩) .direct,
    .putLifecycleRule (Trial.rule "" true false)], ∅⟩ [] []
  obtain ⟨w', hrun⟩ := Option.isSome_iff_exists.mp
    (by decide +kernel : (Lib.run (step Trial.cfg) w (Trial.expiry 20)).isSome = true)
  exact ⟨w, w', hrun, (held_versions_outlive_expiry (sound_run _ _ (by decide)).1
    ⟨⟨none, true⟩, by decide +kernel, rfl⟩ _ (by decide +kernel) (by simp [Meets, LeavesHold, Trial.expiry]) hrun).2⟩

end System

end RecordStore.Lifecycle

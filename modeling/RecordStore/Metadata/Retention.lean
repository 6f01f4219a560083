import RecordStore.Metadata.Runs

/-!
# Metadata.Retention — what releases a locked version

A lock record sits on a non-null object version of a bucket under Object Lock.  Writes and ordinary
deletes remove null versions only, so the two commands that name a version are the only ones that can
touch a locked one, and both look at its lock state first.
-/

namespace RecordStore.Metadata

open RecordStore.Lib RecordStore.Core Tx

/-- The instant a command says it observed, for the commands that can release a lock. -/
def MetadataCommand.observedAt? : MetadataCommand → Option DateTime
  | .deleteObjectVersion _ _ _ release => some release.observedAt
  | .putObjectLock _ _ _ _ release => some release.observedAt
  | .observeClock release => some release.observedAt
  | _ => none

/-- The command asks for the legal hold of the version to be lifted. -/
def MetadataCommand.liftsHold (v : VersionId) : MetadataCommand → Prop
  | .putObjectLock _ _ version requested _ => version = v ∧ requested.legalHold = false
  | _ => False

variable {s s' : Catalog} {env : Env} {c : MetadataCommand} {v : VersionId} {state : ObjectLockState}

/-! ## One command -/

section Step

/-- A locked version is an object version, and not a null version. -/
theorem WF.locked_row (h : WF s) (hl : s.objectLocks[lockKey v]? = some state) :
    ∃ m, s.versions[v.bytes]? = some (.object m false) := by
  obtain ⟨-, m, n, b, hrow, hb, hlock⟩ := h.locks _ _ hl
  obtain ⟨b', hb', hnull⟩ := h.owned _ _ hrow
  have e : b' = b := Option.some.inj (hb'.symm.trans hb)
  have hn : n = false := hnull (e ▸ hlock)
  exact ⟨m, hn ▸ hrow⟩

/-- A null version that a command replaces is not a locked one. -/
theorem WF.locked_ne_removed (h : WF s) (hl : s.objectLocks[lockKey v]? = some state) {bucket : BucketId}
    {key : ObjectKey} {removed : Option ObjectVersionRecord} (hnull : NullVersion s bucket key removed) :
    ∀ r, removed = some r → v.bytes ≠ r.versionId.bytes := by
  intro r hr e
  obtain ⟨m, hrow⟩ := h.locked_row hl
  obtain ⟨hrow', hn, -⟩ := hnull.row h.index hr
  rw [← e, hrow, Option.some.injEq] at hrow'
  rw [← hrow'] at hn
  cases hn

theorem WF.locked_ne_replaced (h : WF s) (hl : s.objectLocks[lockKey v]? = some state) {bucket : BucketId}
    {key : ObjectKey} {isNull : Bool} {removed : Option ObjectVersionRecord}
    (hnull : if isNull then NullVersion s bucket key removed else removed = none) :
    ∀ r, removed = some r → v.bytes ≠ r.versionId.bytes := by
  intro r hr
  by_cases hn : isNull = true
  · rw [if_pos hn] at hnull
    exact h.locked_ne_removed hl hnull r hr
  · rw [if_neg hn, hr] at hnull
    cases hnull

theorem lookup_dropLock_of_ne {removed : Option ObjectVersionRecord} {t : Table Bytes ObjectLockState} {k : Bytes}
    (h : t[k]? = some state) (hne : ∀ r, removed = some r → k ≠ r.versionId.bytes) :
    (dropLock removed t)[k]? = some state := by
  cases removed with
  | none => exact h
  | some r =>
    have hk : k ≠ lockKey r.versionId := hne r rfl
    simp only [dropLock, Option.elim_some, Table.lookup_erase]
    rw [if_neg hk, h]

theorem lookup_bornLock_of_ne {w : VersionId} {o : Option ObjectLockState} {t : Table Bytes ObjectLockState}
    {k : Bytes} (hne : k ≠ w.bytes) : (bornLock w o t)[k]? = t[k]? := by
  unfold bornLock
  cases o.filter fun state => !state.isUnlocked with
  | none => rfl
  | some st =>
    rw [Option.elim_some, Table.lookup_insert]
    exact if_neg hne

/-- The version and its lock record are as they were. -/
def Untouched (s s' : Catalog) (v : VersionId) : Prop :=
  s'.versions[v.bytes]? = s.versions[v.bytes]? ∧ s'.objectLocks[lockKey v]? = s.objectLocks[lockKey v]?

/-- What a command can do to a locked version. -/
theorem Sound.lock_step (h : Sound s) (happ : Applied env s c s')
    (hfresh : ∀ v, c.newVersion? = some v → s.versions[v.bytes]? = none)
    (hl : s.objectLocks[lockKey v]? = some state) :
    Untouched s s' v ∨
    (∃ bucket key release, c = .deleteObjectVersion bucket key v release ∧ Releasable state release) ∨
    ∃ bucket key requested release st, c = .putObjectLock bucket key v requested release ∧
      s'.versions = s.versions ∧
      state.withRetention requested.retention release.observedAt release.bypassGovernance = .ok st ∧
      s'.objectLocks[lockKey v]? =
        if (st.withLegalHold requested.legalHold).isUnlocked then none
        else some (st.withLegalHold requested.legalHold) := by
  obtain ⟨m₀, hrow⟩ := h.wf.locked_row hl
  have hstate : s.readObjectLock v = state := by
    unfold Catalog.readObjectLock
    rw [hl]
    rfl
  -- the identifier a command brings is not that of a version that exists
  have hbrought : ∀ w, c.newVersion? = some w → v.bytes ≠ w.bytes := by
    intro w hw e
    rw [e, hfresh w hw] at hrow
    cases hrow
  rcases happ.history h.wf with hsame | ⟨m, lock, origin, res, rfl, hret⟩ | ⟨bucket, key, nm, res, rfl, hret⟩ |
    ⟨bucket, key, version, release, r, res, rfl, hr, hm, hret⟩ |
    ⟨bucket, key, version, requested, release, updated, rfl, hret⟩
  · exact .inl ⟨by rw [hsame.versions], by rw [hsame.locks]⟩
  · obtain ⟨b, isNull, removed, u', -, -, hnull, -, -, -, -, -, t, e, -, rfl⟩ := putObjectTx_returns hret
    have hrem := h.wf.locked_ne_replaced hl hnull
    have hne := hbrought _ rfl
    refine .inl ⟨?_, ?_⟩
    · rw [Table.lookup_insert, if_neg hne, hrow]
      exact lookup_dropVersion_of_ne hrow hrem
    · rw [show lockKey v = v.bytes from rfl, lookup_bornLock_of_ne hne]
      exact (lookup_dropLock_of_ne hl hrem).trans hl.symm
  · obtain ⟨record, s₁, r₁, -, hdel, t, e, -, rfl⟩ := deleteObjectTx_returns hret
    have hne := hbrought _ rfl
    by_cases hv : record.versioning = .disabled
    · rw [hv] at hdel
      obtain ⟨removed, hnull, -, rfl, t', -, rfl⟩ := deleteCurrent_disabled hdel
      have hrem := h.wf.locked_ne_removed hl hnull
      exact .inl ⟨(lookup_dropVersion_of_ne hrow hrem).trans hrow.symm,
        (lookup_dropLock_of_ne hl hrem).trans hl.symm⟩
    · obtain ⟨isNull, removed, -, hnull, -, rfl, t', -, rfl⟩ := deleteCurrent_marker hv hdel
      have hrem := h.wf.locked_ne_replaced hl hnull
      refine .inl ⟨?_, (lookup_dropLock_of_ne hl hrem).trans hl.symm⟩
      rw [Table.lookup_insert, if_neg hne, hrow]
      exact lookup_dropVersion_of_ne hrow hrem
  · obtain ⟨hrel, ob, mk, u', cl, t, e, -, rfl⟩ := removeExactVersion_returns hret
    by_cases hv : version = v
    · subst hv
      exact .inr (.inl ⟨bucket, key, release, rfl, hstate ▸ hrel⟩)
    · have hid : version = r.versionId := Id.bytes_inj.mp (h.wf.index.key _ _ hr)
      have hne : v.bytes ≠ version.bytes := fun e => hv (Id.bytes_inj.mp e).symm
      refine .inl ⟨?_, ?_⟩
      · rw [Table.lookup_erase, if_neg (hid ▸ hne)]
      · exact (Table.lookup_erase _ _ _).trans (if_neg hne)
  · obtain ⟨_, _, _, st, cl, -, -, -, -, -, hst, rfl, rfl⟩ := putObjectLockTx_returns hret
    by_cases hv : version = v
    · subst hv
      refine .inr (.inr ⟨bucket, key, requested, release, st, rfl, rfl, hstate ▸ hst, ?_⟩)
      split_ifs with hu
      · exact Table.lookup_erase_self _ _
      · exact Table.lookup_insert_self _ _ _
    · have hne : lockKey v ≠ lockKey version := fun e => hv (Id.bytes_inj.mp e).symm
      refine .inl ⟨rfl, ?_⟩
      simp only
      split_ifs
      · rw [Table.lookup_erase, if_neg hne]
      · rw [Table.lookup_insert, if_neg hne]

end Step

/-! ## Running retention and legal hold -/

section Held

/-- The version is there and its lock record is under a compliance retention until `until_` or later. -/
def RetainedUntil (s : Catalog) (v : VersionId) (until_ : DateTime) : Prop :=
  ∃ state r, s.objectLocks[lockKey v]? = some state ∧ state.retention = some r ∧ r.mode = .compliance ∧
    until_ ≤ r.retainUntil

/-- The version's lock record has its legal hold on. -/
def Held (s : Catalog) (v : VersionId) : Prop :=
  ∃ state, s.objectLocks[lockKey v]? = some state ∧ state.legalHold = true

theorem Releasable.not_compliance {release : LockRelease} {r : Retention} (h : Releasable state release)
    (hr : state.retention = some r) (hm : r.mode = .compliance) (ha : r.isActiveAt release.observedAt = true) :
    False := by
  rcases h with hu | hblock
  · rw [ObjectLockState.isUnlocked_of_retention hr] at hu
    cases hu
  · obtain ⟨block, hb, hby⟩ := ObjectLockState.deletionBlockAt_of_compliance hr hm ha
    rw [(hblock block hb).1] at hby
    cases hby

theorem Releasable.not_held {release : LockRelease} (h : Releasable state release)
    (hh : state.legalHold = true) : False := by
  rcases h with hu | hblock
  · rw [ObjectLockState.isUnlocked_of_legalHold hh] at hu
    cases hu
  · have hby := (hblock _ (ObjectLockState.deletionBlockAt_of_legalHold hh release.observedAt)).1
    cases hby

/-- A command that observes an instant before the retention's date keeps version and retention. -/
theorem Sound.retained_step (h : Sound s) (happ : Applied env s c s')
    (hfresh : ∀ v, c.newVersion? = some v → s.versions[v.bytes]? = none) {r : Retention}
    (hl : s.objectLocks[lockKey v]? = some state) (hr : state.retention = some r) (hm : r.mode = .compliance)
    (hact : ∀ t, c.observedAt? = some t → t.timestampMicros < r.retainUntil.timestampMicros) :
    s'.versions[v.bytes]? = s.versions[v.bytes]? ∧ RetainedUntil s' v r.retainUntil := by
  rcases h.lock_step happ hfresh hl with ⟨hv, hlock⟩ | ⟨bucket, key, release, rfl, hrel⟩ |
    ⟨bucket, key, requested, release, st, rfl, hv, hst, hlock⟩
  · exact ⟨hv, state, r, hlock.trans hl, hr, hm, DateTime.le_refl _⟩
  · exact absurd (hrel.not_compliance hr hm (decide_eq_true (hact _ rfl))) not_false
  · obtain ⟨r', hr', hm', hle⟩ :=
      ObjectLockState.withRetention_compliance hr hm (decide_eq_true (hact _ rfl)) hst
    refine ⟨by rw [hv], st.withLegalHold requested.legalHold, r', ?_, hr', hm', hle⟩
    rw [hlock, if_neg]
    rw [ObjectLockState.isUnlocked_of_retention (s := st.withLegalHold requested.legalHold) hr']
    exact Bool.false_ne_true

/-- A command that does not lift the hold keeps version and hold. -/
theorem Sound.held_step (h : Sound s) (happ : Applied env s c s')
    (hfresh : ∀ v, c.newVersion? = some v → s.versions[v.bytes]? = none) (hl : Held s v)
    (hc : ¬ c.liftsHold v) : s'.versions[v.bytes]? = s.versions[v.bytes]? ∧ Held s' v := by
  obtain ⟨state, hl, hh⟩ := hl
  rcases h.lock_step happ hfresh hl with ⟨hv, hlock⟩ | ⟨bucket, key, release, rfl, hrel⟩ |
    ⟨bucket, key, requested, release, st, rfl, hv, hst, hlock⟩
  · exact ⟨hv, state, hlock.trans hl, hh⟩
  · exact absurd (hrel.not_held hh) not_false
  · have hreq : requested.legalHold = true := by
      by_contra hne
      exact hc ⟨rfl, by simpa using hne⟩
    refine ⟨by rw [hv], st.withLegalHold requested.legalHold, ?_, hreq⟩
    rw [hlock, if_neg]
    rw [ObjectLockState.isUnlocked_of_legalHold (s := st.withLegalHold requested.legalHold) hreq]
    exact Bool.false_ne_true

/-- A command without an observed instant touches no locked version. -/
theorem Sound.untouched_step (h : Sound s) (happ : Applied env s c s')
    (hfresh : ∀ v, c.newVersion? = some v → s.versions[v.bytes]? = none)
    (hl : s.objectLocks[lockKey v]? = some state) (hc : c.observedAt? = none) : Untouched s s' v := by
  rcases h.lock_step happ hfresh hl with hsame | ⟨bucket, key, release, rfl, -⟩ |
    ⟨bucket, key, requested, release, st, rfl, -⟩
  · exact hsame
  · cases hc
  · cases hc

end Held

/-! ## Runs -/

section Runs

variable {cmds : List MetadataCommand}

/-- The hold survives every sequence of commands in which none that lifts it is applied. -/
theorem held_run (hh : Held (run env cmds) v) (later : List MetadataCommand)
    (hfl : FreshVersions (cmds ++ later))
    (hno : ∀ before c, before ++ [c] <+: later → c.liftsHold v →
      ∃ e, Fails (applyCommandTx env c) (run env (cmds ++ before)) e) :
    (run env (cmds ++ later)).versions[v.bytes]? = (run env cmds).versions[v.bytes]? ∧
      Held (run env (cmds ++ later)) v := by
  induction later using List.reverseRecOn with
  | nil =>
    rw [List.append_nil]
    exact ⟨rfl, hh⟩
  | append_singleton later c ih =>
    rw [← List.append_assoc] at hfl ⊢
    obtain ⟨hsame, hheld⟩ := ih hfl.of_append fun before c' hpre hc' =>
      hno before c' (hpre.trans (List.prefix_append later [c])) hc'
    by_cases hc : c.liftsHold v
    · -- a command that would lift the hold was refused
      obtain ⟨e, hfail⟩ := hno later c (List.prefix_refl _) hc
      rw [run_append, step, commit_of_fails hfail]
      exact ⟨hsame, hheld⟩
    · refine run_step (P := fun s => s.versions[v.bytes]? = (run env cmds).versions[v.bytes]? ∧ Held s v) hfl
        ⟨hsame, hheld⟩ fun s' hs hfresh happ => ?_
      obtain ⟨hv, hheld'⟩ := hs.held_step happ hfresh hheld hc
      exact ⟨hv.trans hsame, hheld'⟩

/-- No command releases a compliance retention before its date, none removes a version under legal
hold until the hold was lifted, and commands that observe no instant leave locked versions alone. -/
theorem locks_not_released_early (env : Env) (cmds : List MetadataCommand) (hf : FreshVersions cmds)
    (v : VersionId) (state : ObjectLockState) (hl : (run env cmds).objectLocks[lockKey v]? = some state) :
    (∃ record, (run env cmds).versions[v.bytes]? = some record) ∧
    (∀ r, state.retention = some r → r.mode = .compliance → ∀ c, FreshVersions (cmds ++ [c]) →
      (∀ t, c.observedAt? = some t → t.timestampMicros < r.retainUntil.timestampMicros) →
      (run env (cmds ++ [c])).versions[v.bytes]? = (run env cmds).versions[v.bytes]? ∧
        RetainedUntil (run env (cmds ++ [c])) v r.retainUntil) ∧
    (state.legalHold = true → ∀ later, FreshVersions (cmds ++ later) →
      (∀ before c, before ++ [c] <+: later → c.liftsHold v →
        ∃ e, Fails (applyCommandTx env c) (run env (cmds ++ before)) e) →
      (run env (cmds ++ later)).versions[v.bytes]? = (run env cmds).versions[v.bytes]? ∧
        Held (run env (cmds ++ later)) v) ∧
    ∀ c, FreshVersions (cmds ++ [c]) → c.observedAt? = none →
      Untouched (run env cmds) (run env (cmds ++ [c])) v := by
  obtain ⟨hs, -⟩ := sound_run env cmds hf
  refine ⟨?_, ?_, ?_, ?_⟩
  · obtain ⟨m, hrow⟩ := hs.wf.locked_row hl
    exact ⟨_, hrow⟩
  · intro r hr hm c hfc hact
    refine run_step (P := fun s => s.versions[v.bytes]? = (run env cmds).versions[v.bytes]? ∧
      RetainedUntil s v r.retainUntil) hfc ⟨rfl, state, r, hl, hr, hm, DateTime.le_refl _⟩
      fun s' hs hfresh happ => hs.retained_step happ hfresh hl hr hm hact
  · intro hh later hfl hno
    exact held_run ⟨state, hl, hh⟩ later hfl hno
  · intro c hfc hc
    exact run_step (P := fun s => Untouched (run env cmds) s v) hfc ⟨rfl, rfl⟩
      fun s' hs hfresh happ => hs.untouched_step happ hfresh hl hc

/-- A version written under compliance retention, and an attempt to delete it with a bypass. -/
theorem locks_not_released_early_delete :
    (run Sample.env (Sample.retained ++ [Sample.deleteRetained])).versions[Id.bytes (Id.ofNat 20 : VersionId)]? =
        some (.object (Sample.object 10 20 5) false) ∧
      RetainedUntil (run Sample.env (Sample.retained ++ [Sample.deleteRetained])) (.ofNat 20) Sample.later := by
  have h := (locks_not_released_early Sample.env Sample.retained (by decide) (.ofNat 20)
    ⟨some ⟨.compliance, Sample.later⟩, false⟩ (by decide)).2.1 ⟨.compliance, Sample.later⟩ rfl rfl
    Sample.deleteRetained (by decide) (by rintro t ⟨⟩; decide)
  exact ⟨h.1.trans (by decide), h.2⟩

end Runs

end RecordStore.Metadata

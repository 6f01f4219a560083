import RecordStore.Consensus.ExactlyOnce
import RecordStore.Service.Writers

/-!
# Consensus.Agreement — a cluster's answers and a standalone node's

A command proposed to the cluster is applied by the state machine, and its answer is rebuilt from the
response.  The catalog ends as on a standalone node.  The answer does too, except for refusals whose
category the rejection does not carry: those about locks and the clock come back as failures of the
database, and the reason of an invalid lifecycle rule comes back with the text of its category before it.
-/

namespace RecordStore.Consensus

open RecordStore.Lib RecordStore.Metadata RecordStore.Service Tx

section Propose

variable {κ γ ο χ μ : Type} (env : Env) (logic : ClusterLogic κ γ ο χ)

/-- A command as an entry of its own: what the proposer is answered, if the member goes on. -/
def propose (id : LogId) (c : MetadataCommand) (s : Replicated κ μ) :
    Option (Except MetadataError MetadataOutcome) × Replicated κ μ :=
  match applyEntry env logic ⟨id, .normal (.metadata c)⟩ s with
  | (.ok response, s') => (some response.intoMetadata, s')
  | (.error _, s') => (none, s')

/-- The same outcome, and the same error for every refusal that is not a failure of storage. -/
structure SameAnswer (standalone : Except Failure MetadataOutcome)
    (cluster : Option (Except MetadataError MetadataOutcome)) : Prop where
  ok : ∀ outcome, standalone = .ok outcome → cluster = some (.ok outcome)
  refused : ∀ e, standalone = .error (.refused e) → isDurableMetadataFailure e = false → cluster = some (.error e)

variable {env logic} {s : Replicated κ μ} {id : LogId} {c : MetadataCommand}

/-- The response to the result of a catalog command. -/
def respond : Except Failure MetadataOutcome → Except DurableFailure (ClusterWriteResponse ο)
  | .ok outcome => .ok (.metadata outcome)
  | .error (.refused e) =>
    if isDurableMetadataFailure e then .error (.storage e.toText) else .ok (.rejected (classifyMetadataError e))
  | .error (.panicked _) => .error .panicked

theorem exec_applyMetadataCommand (c : MetadataCommand) (d : Data κ) :
    exec (applyMetadataCommand env c : Tx (Data κ) DurableFailure (ClusterWriteResponse ο)) d =
      (respond (exec (applyCommandTx env c) d.catalog).1,
        { d with catalog := (exec (applyCommandTx env c) d.catalog).2 }) := by
  unfold applyMetadataCommand
  generalize applyCommandTx env c = x
  have hget : exec (get : Tx (Data κ) DurableFailure (Data κ)) d = (.ok d, d) := rfl
  rw [exec_bind, hget]
  rcases hx : exec x d.catalog with ⟨failure | outcome, t⟩
  · simp only [hx]
    cases failure with
    | panicked operation => rfl
    | refused e =>
      simp only [respond]
      cases isDurableMetadataFailure e <;> rfl
  · simp only [hx]
    rfl

/-- The three ways a proposal ends. -/
theorem propose_of_returns {outcome : MetadataOutcome} {t : Catalog}
    (h : Returns (applyCommandTx env c) s.data.catalog outcome t) :
    propose env logic id c s =
      (some (.ok outcome), { s.recordApplied id with data := { s.data with catalog := t } }) := by
  have hx : exec (applyCommandTx env c) s.data.catalog = (.ok outcome, t) := h
  have hdata : (s.recordApplied id).data = s.data := rfl
  simp only [propose, applyEntry, normalTx, applyWrite, hdata, exec_applyMetadataCommand, hx, respond]
  rfl

theorem propose_of_rejected {e : MetadataError} (h : Fails (applyCommandTx env c) s.data.catalog (.refused e))
    (he : isDurableMetadataFailure e = false) :
    propose env logic id c s = (some (.error (classifyMetadataError e).intoMetadataError), s.recordApplied id) := by
  have hx : (exec (applyCommandTx env c) s.data.catalog).1 = .error (.refused e) := h
  have hdata : (s.recordApplied id).data = s.data := rfl
  simp only [propose, applyEntry, normalTx, applyWrite, hdata, exec_applyMetadataCommand, hx, respond, he,
    Bool.false_eq_true, if_false]
  rfl

theorem propose_of_stopped {f : Failure} (h : Fails (applyCommandTx env c) s.data.catalog f)
    (hf : ∀ e, f = .refused e → isDurableMetadataFailure e = true) : propose env logic id c s = (none, s) := by
  have hx : (exec (applyCommandTx env c) s.data.catalog).1 = .error f := h
  have hdata : (s.recordApplied id).data = s.data := rfl
  cases f with
  | panicked operation =>
    simp only [propose, applyEntry, normalTx, applyWrite, hdata, exec_applyMetadataCommand, hx, respond]
  | refused e =>
    simp only [propose, applyEntry, normalTx, applyWrite, hdata, exec_applyMetadataCommand, hx, respond,
      hf e rfl, if_true]

/-- The catalog is the one a standalone node has. -/
theorem propose_catalog (env : Env) (logic : ClusterLogic κ γ ο χ) (id : LogId) (c : MetadataCommand)
    (s : Replicated κ μ) :
    (propose env logic id c s).2.data.catalog = (commitOne env c s.data.catalog).2 := by
  unfold commitOne
  rcases returns_or_fails (applyCommandTx env c) s.data.catalog with ⟨outcome, t, h⟩ | ⟨f, h⟩
  · rw [propose_of_returns h, commit_of_returns h]
  · rw [commit_of_fails h]
    by_cases hf : ∀ e, f = .refused e → isDurableMetadataFailure e = true
    · rw [propose_of_stopped h hf]
    · push Not at hf
      obtain ⟨e, rfl, he⟩ := hf
      rw [propose_of_rejected h (by simpa using he)]
      rfl

/-- What a rejection keeps of an error. -/
theorem intoMetadataError_classify (e : MetadataError) (he : isDurableMetadataFailure e = false) :
    (classifyMetadataError e).intoMetadataError = e ↔ e.isPlain = true := by
  cases e with
  | invalidLifecycleRule reason =>
    have hne : "invalid lifecycle rule: " ++ reason ≠ reason := by
      intro h
      have hlen := congrArg String.length h
      rw [String.length_append] at hlen
      have hpos : "invalid lifecycle rule: ".length = 24 := by decide
      omega
    refine ⟨fun h => absurd (MetadataError.invalidLifecycleRule.inj h) hne, fun h => ?_⟩
    cases h
  | _ => simp_all [classifyMetadataError, CommandRejection.intoMetadataError, MetadataError.isPlain,
      isDurableMetadataFailure]

theorem isPlain_of_durable {e : MetadataError} (h : isDurableMetadataFailure e = true) : e.isPlain = true := by
  cases e <;> first | rfl | cases h

/-- A cluster answers as a standalone node does unless the command ends in an error that is not plain. -/
theorem sameAnswer_iff :
    SameAnswer (commitOne env c s.data.catalog).1 (propose env logic id c s).1 ↔
      Avoids (fun f => ∃ e : MetadataError, f = .refused e ∧ e.isPlain = false)
        (applyCommandTx env c) s.data.catalog := by
  unfold commitOne
  rcases returns_or_fails (applyCommandTx env c) s.data.catalog with ⟨outcome, t, h⟩ | ⟨f, h⟩
  · rw [propose_of_returns h, commit_of_returns h]
    refine ⟨fun _ f hf => absurd hf h.not_fails, fun _ => ⟨?_, ?_⟩⟩
    · rintro outcome' ho
      obtain rfl := Except.ok.inj ho
      rfl
    · intro e he
      cases he
  · have hunique : ∀ f', Fails (applyCommandTx env c) s.data.catalog f' → f' = f := by
      intro f' hf'
      exact Except.error.inj (hf'.symm.trans h)
    rw [commit_of_fails h]
    by_cases hf : ∀ e, f = .refused e → isDurableMetadataFailure e = true
    · rw [propose_of_stopped h hf]
      refine ⟨?_, fun _ => ⟨fun _ ho => (by cases ho), ?_⟩⟩
      · rintro - f' hf' ⟨e, rfl, hplain⟩
        rw [isPlain_of_durable (hf e (hunique _ hf').symm)] at hplain
        cases hplain
      · intro e he hdurable
        rw [hf e (Except.error.inj he)] at hdurable
        cases hdurable
    · push Not at hf
      obtain ⟨e, rfl, he⟩ := hf
      have he : isDurableMetadataFailure e = false := by simpa using he
      rw [propose_of_rejected h he]
      constructor
      · rintro hsame f' hf' ⟨e', rfl, hplain⟩
        obtain rfl := Failure.refused.inj (hunique _ hf')
        have hkept :=
          (intoMetadataError_classify e' he).mp (Except.error.inj (Option.some.inj (hsame.refused e' rfl he)))
        rw [hkept] at hplain
        cases hplain
      · intro havoid
        have hplain : e.isPlain = true := by
          by_contra hnot
          exact havoid _ h ⟨e, rfl, by simpa using hnot⟩
        refine ⟨fun _ ho => (by cases ho), ?_⟩
        intro e' he' _
        obtain rfl := Failure.refused.inj (Except.error.inj he')
        rw [(intoMetadataError_classify e he).mpr hplain]

end Propose

/-- In every reachable catalog a command leaves the same catalog through the replicated path as on a
standalone node, and the same answer if and only if every refusal it meets is plain. -/
theorem cluster_answers_as_standalone {κ γ ο χ μ : Type} (env : Env) (logic : ClusterLogic κ γ ο χ)
    (cmds : List MetadataCommand) (hf : FreshVersions cmds) (s : Replicated κ μ) (hs : s.data.catalog = run env cmds)
    (id : LogId) (c : MetadataCommand) :
    ((propose env logic id c s).2.data.catalog = (commitOne env c s.data.catalog).2 ∧
      SameAnswer (commitOne env c s.data.catalog).1 (propose env logic id c s).1) ↔
      ∀ e, Quiet.Raises env s.data.catalog c e → e.isPlain = true := by
  have hw : WF s.data.catalog := by
    rw [hs]
    exact (sound_run env cmds hf).1.wf
  have hplain : ∀ e : MetadataError, e.isPlain = true →
      ¬ ∃ e' : MetadataError, Failure.refused e = .refused e' ∧ e'.isPlain = false := by
    rintro e he ⟨e', heq, hplain⟩
    obtain rfl := Failure.refused.inj heq
    rw [he] at hplain
    cases hplain
  have hq : Silent env fun f => ∃ e : MetadataError, f = .refused e ∧ e.isPlain = false :=
    ⟨⟨fun _ => by simp, fun e he _ => hplain e he⟩, fun _ => by simp, fun _ => hplain _ rfl⟩
  rw [and_iff_right (propose_catalog env logic id c s), sameAnswer_iff]
  constructor
  · intro havoid e he
    by_contra hnot
    exact Quiet.not_raised hq hw havoid e he ⟨e, rfl, by simpa using hnot⟩
  · intro hall
    exact hq.applyCommandTx (.inl hq) (fun _ _ _ => Quiet.unlocked_of_wf hw) c fun e he => hplain e (hall e he)

namespace Sample

/-- A member whose catalog holds a version under retention. -/
def retained : Replicated Unit Unit := ⟨⟨run Metadata.Sample.env Metadata.Sample.retained, ()⟩, none, ⟨none, ()⟩⟩

/-- The creation of its bucket once more. -/
def again : MetadataCommand := .createBucket (Metadata.Sample.bucket .enabled (some ⟨none⟩))

end Sample

/-- The deletion of a version under retention: a standalone node names the retention, a cluster reports a
failure of the database. -/
theorem locked_deletion_loses_its_error :
    (commitOne Metadata.Sample.env Metadata.Sample.deleteRetained Sample.retained.data.catalog).1 =
        .error (.refused (.versionLocked (.retention .compliance Metadata.Sample.later))) ∧
      (propose Metadata.Sample.env Sample.noCluster ⟨1, 1, 1⟩ Metadata.Sample.deleteRetained Sample.retained).1 =
        some (.error (.database "replicated metadata command" "object version is held by compliance_retention")) ∧
      ¬ SameAnswer (commitOne Metadata.Sample.env Metadata.Sample.deleteRetained Sample.retained.data.catalog).1
        (propose Metadata.Sample.env Sample.noCluster ⟨1, 1, 1⟩ Metadata.Sample.deleteRetained Sample.retained).1 := by
  have hstandalone : (commitOne Metadata.Sample.env Metadata.Sample.deleteRetained Sample.retained.data.catalog).1 =
      .error (.refused (.versionLocked (.retention .compliance Metadata.Sample.later))) := by
    decide +kernel
  have hcluster : (propose Metadata.Sample.env Sample.noCluster ⟨1, 1, 1⟩ Metadata.Sample.deleteRetained
      Sample.retained).1 =
        some (.error (.database "replicated metadata command" "object version is held by compliance_retention")) := by
    decide +kernel
  refine ⟨hstandalone, hcluster, fun hsame => ?_⟩
  have hkept := hsame.refused _ hstandalone rfl
  rw [hcluster] at hkept
  exact absurd (Except.error.inj (Option.some.inj hkept)) (by decide)

/-- The creation of the bucket that is there: both name the conflict. -/
theorem cluster_answers_as_standalone_conflict :
    (propose Metadata.Sample.env Sample.noCluster ⟨1, 1, 1⟩ Sample.again Sample.retained).1 =
      some (.error .bucketAlreadyExists) ∧
    SameAnswer (commitOne Metadata.Sample.env Sample.again Sample.retained.data.catalog).1
      (propose Metadata.Sample.env Sample.noCluster ⟨1, 1, 1⟩ Sample.again Sample.retained).1 := by
  refine ⟨by decide +kernel,
    ((cluster_answers_as_standalone Metadata.Sample.env Sample.noCluster Metadata.Sample.retained
    (by decide) Sample.retained rfl ⟨1, 1, 1⟩ Sample.again).mpr fun e he => ?_).2⟩
  have hcoherent : checkNewBucket (Metadata.Sample.bucket .enabled (some ⟨none⟩)) = .ok () := by decide
  cases hcoherent.symm.trans he

end RecordStore.Consensus

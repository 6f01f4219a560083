import RecordStore.Lib.Replay
import RecordStore.Consensus.StateMachine
import RecordStore.Metadata.Runs

/-!
# Consensus.ExactlyOnce — crashes and replay

What a log means is said first: an entry's commands run in turn, all of them or none, and the position
advances.  Then comes a member as a machine that applies entries in transactions, may stop or crash at
any point, and after a restart replays from the position it finds in its database.  In every state such
a machine reaches, the database is what the entries up to the recorded position mean.
-/

namespace RecordStore.Consensus

open RecordStore.Lib RecordStore.Core RecordStore.Metadata Tx

/-! ## What a log means -/

section Log

variable {κ γ ο χ μ : Type} (env : Env) (logic : ClusterLogic κ γ ο χ)

/-- One command of a write. -/
inductive Command (γ : Type) where
  | metadata (command : MetadataCommand)
  | cluster (command : γ)

mutual

/-- The commands of a write, in the order of the batch and of the batches in it. -/
def commands : ClusterWrite γ → List (Command γ)
  | .noop => []
  | .metadata c => [.metadata c]
  | .cluster c => [.cluster c]
  | .batch writes => commandsOf writes

def commandsOf : List (ClusterWrite γ) → List (Command γ)
  | [] => []
  | w :: ws => commands w ++ commandsOf ws

end

/-- Why a write did not go through. -/
inductive Refusal where
  | rejected (rejection : CommandRejection)
  | durable (failure : DurableFailure)

/-- A rejection as a failure. -/
def verdict : Except DurableFailure (ClusterWriteResponse ο) → Except Refusal Unit
  | .ok (.rejected rejection) => .error (.rejected rejection)
  | .ok _ => .ok ()
  | .error failure => .error (.durable failure)

def answer : Command γ → Tx (Data κ) DurableFailure (ClusterWriteResponse ο)
  | .metadata c => applyMetadataCommand env c
  | .cluster c => applyClusterCommand logic c

/-- One command, given up when it is rejected. -/
def perform (c : Command γ) : Tx (Data κ) Refusal Unit :=
  ExceptT.mk fun s => (verdict (exec (answer env logic c) s).1, (exec (answer env logic c) s).2)

/-- What an entry does to the database: its commands all or none, and the advance of the position.  When
storage fails it does nothing, and the member does not go on. -/
def entryEffect (e : Entry γ μ) (s : Replicated κ μ) : Option (Replicated κ μ) :=
  match e.payload with
  | .blank => some { s with lastApplied := some e.logId }
  | .membership members => some { s with lastApplied := some e.logId, lastMembership := ⟨some e.logId, members⟩ }
  | .normal w =>
    match commit ((commands w).forM (perform env logic)) s.data with
    | (.ok _, data) => some { s with data := data, lastApplied := some e.logId }
    | (.error (.rejected _), _) => some { s with lastApplied := some e.logId }
    | (.error (.durable _), _) => none

/-! ## One write -/

section Write

variable {env logic}

/-- The outcome of a write, with a rejection as a failure. -/
def decided (out : Except DurableFailure (ClusterWriteResponse ο) × Data κ) : Except Refusal Unit × Data κ :=
  (verdict out.1, out.2)

theorem exec_perform (c : Command γ) (s : Data κ) :
    exec (perform env logic c) s = decided (exec (answer env logic c) s) := rfl

theorem exec_forM_append (cs cs' : List (Command γ)) (s : Data κ) :
    exec ((cs ++ cs').forM (perform env logic)) s = match exec (cs.forM (perform env logic)) s with
      | (.ok _, s') => exec (cs'.forM (perform env logic)) s'
      | (.error refusal, s') => (.error refusal, s') := by
  have happend : (cs ++ cs').forM (perform env logic) =
      cs.forM (perform env logic) >>= fun _ => cs'.forM (perform env logic) := List.forM_append
  rw [happend, exec_bind]
  rcases exec (cs.forM (perform env logic)) s with ⟨_ | _, s'⟩ <;> rfl

theorem exec_perform_one (c : Command γ) (s : Data κ) :
    exec ([c].forM (perform env logic)) s = decided (exec (answer env logic c) s) := by
  have hcons : [c].forM (perform env logic) = perform env logic c >>= fun _ => [].forM (perform env logic) :=
    List.forM_cons
  rw [hcons, exec_bind, exec_perform]
  rcases decided (exec (answer env logic c) s) with ⟨_ | _, s'⟩ <;> rfl

mutual

/-- Applying a write is performing its commands in turn, up to the first that is refused. -/
theorem exec_commands (w : ClusterWrite γ) (s : Data κ) :
    exec ((commands w).forM (perform env logic)) s = decided (exec (applyWrite env logic w) s) := by
  cases w with
  | noop => simp only [commands, applyWrite]; rfl
  | metadata c => simp only [commands, applyWrite]; exact exec_perform_one (.metadata c) s
  | cluster c => simp only [commands, applyWrite]; exact exec_perform_one (.cluster c) s
  | batch writes => simp only [commands, applyWrite]; exact exec_commandsOf writes [] s

theorem exec_commandsOf (ws : List (ClusterWrite γ)) (responses : List (ClusterWriteResponse ο)) (s : Data κ) :
    exec ((commandsOf ws).forM (perform env logic)) s = decided (exec (applyBatch env logic ws responses) s) := by
  cases ws with
  | nil => simp only [commandsOf, applyBatch]; rfl
  | cons w ws =>
    simp only [commandsOf, applyBatch, exec_forM_append, exec_bind, exec_commands w s]
    rcases exec (applyWrite env logic w) s with ⟨failure | response, s'⟩
    · rfl
    · cases response with
      | rejected rejection => rfl
      | _ => exact exec_commandsOf ws _ s'

end

/-- The meaning of an entry whose write goes through. -/
theorem entryEffect_of_ok {e : Entry γ μ} {w : ClusterWrite γ} {s : Replicated κ μ} {data : Data κ}
    {response : ClusterWriteResponse ο} (he : e.payload = .normal w)
    (h : exec (applyWrite env logic w) s.data = (.ok response, data))
    (hok : ∀ rejection, response ≠ .rejected rejection) :
    entryEffect env logic e s = some { s.recordApplied e.logId with data := data } := by
  have hverdict : verdict (.ok response : Except DurableFailure _) = .ok () := by
    cases response with
    | rejected rejection => exact absurd rfl (hok rejection)
    | _ => rfl
  have hreturns : Returns ((commands w).forM (perform env logic)) s.data () data := by
    unfold Returns
    rw [exec_commands, h, decided, hverdict]
  simp only [entryEffect, he, commit_of_returns hreturns]
  rfl

/-- The meaning of an entry with a rejected command: what the commands before it wrote is gone. -/
theorem entryEffect_of_rejected {e : Entry γ μ} {w : ClusterWrite γ} {s : Replicated κ μ} {data : Data κ}
    {rejection : CommandRejection} (he : e.payload = .normal w)
    (h : exec (applyWrite env logic w) s.data = (.ok (.rejected rejection), data)) :
    entryEffect env logic e s = some (commitAppliedOnly e.logId s) := by
  have hfails : Fails ((commands w).forM (perform env logic)) s.data (.rejected rejection) := by
    unfold Fails
    rw [exec_commands, h]
    rfl
  simp only [entryEffect, he, commit_of_fails hfails]
  rfl

/-- The function that applies an entry has the meaning of the entry. -/
theorem applyEntry_effect {e : Entry γ μ} {s s' : Replicated κ μ} {response : ClusterWriteResponse ο}
    (h : applyEntry env logic e s = (.ok response, s')) : entryEffect env logic e s = some s' := by
  unfold applyEntry at h
  cases hp : e.payload with
  | blank | membership members =>
    simp only [hp] at h
    simp only [entryEffect, hp]
    exact congrArg some (congrArg Prod.snd h)
  | normal w =>
    have hdata : (s.recordApplied e.logId).data = s.data := rfl
    simp only [hp, normalTx, hdata] at h
    rcases hx : exec (applyWrite env logic w) s.data with ⟨failure | answered, data⟩
    · rw [hx] at h
      cases h
    · rw [hx] at h
      cases answered with
      | rejected rejection =>
        rw [entryEffect_of_rejected hp hx]
        exact congrArg some (congrArg Prod.snd h)
      | _ =>
        rw [entryEffect_of_ok hp hx (by simp)]
        exact congrArg some (congrArg Prod.snd h)

end Write

/-! ## A member that can crash -/

/-- Where a member is in its work on the next entry. -/
inductive Phase (κ γ ο μ : Type) where
  | idle
  -- a transaction is open and the position is written in it
  | opened (e : Entry γ μ) (w : ClusterWrite γ) (tx : Replicated κ μ)
  -- the write has been applied in it
  | applied (e : Entry γ μ) (response : ClusterWriteResponse ο) (tx : Replicated κ μ)
  -- it was dropped, and the position has not been advanced yet
  | dropped (e : Entry γ μ)
  | stopped

/-- A member: its database, and what it loses in a crash. -/
structure Member (κ γ ο μ : Type) where
  durable : Replicated κ μ
  queue : List (Entry γ μ)
  phase : Phase κ γ ο μ

/-- The number of an entry. -/
def Entry.number (e : Entry γ μ) : Nat := e.logId.index.toNat

/-- A member that starts: consensus hands it what its database has not applied. -/
def Member.start (log : List (Entry γ μ)) (s : Replicated κ μ) : Member κ γ ο μ where
  durable := s
  queue := Replay.after Entry.number log (s.lastApplied.map (·.index.toNat))
  phase := .idle

/-- The steps of a member over a log. -/
inductive Step (log : List (Entry γ μ)) : Member κ γ ο μ → Member κ γ ο μ → Prop
  | blank {s e q} (he : e.payload = .blank) :
      Step log ⟨s, e :: q, .idle⟩ ⟨commitAppliedOnly e.logId s, q, .idle⟩
  | membership {s e q members} (he : e.payload = .membership members) :
      Step log ⟨s, e :: q, .idle⟩ ⟨commitMembership e.logId members s, q, .idle⟩
  | open_ {s e q w} (he : e.payload = .normal w) :
      Step log ⟨s, e :: q, .idle⟩ ⟨s, e :: q, .opened e w (s.recordApplied e.logId)⟩
  | write {s q e w tx response data} (h : exec (applyWrite env logic w) tx.data = (.ok response, data)) :
      Step log ⟨s, q, .opened e w tx⟩ ⟨s, q, .applied e response { tx with data := data }⟩
  | fail {s q e w tx failure data} (h : exec (applyWrite env logic w) tx.data = (.error failure, data)) :
      Step log ⟨s, q, .opened e w tx⟩ ⟨s, q, .stopped⟩
  | drop {s q e rejection tx} : Step log ⟨s, q, .applied e (.rejected rejection) tx⟩ ⟨s, q, .dropped e⟩
  | advance {s q e} : Step log ⟨s, q, .dropped e⟩ ⟨commitAppliedOnly e.logId s, q.tail, .idle⟩
  | commit {s q e response tx} (h : ∀ rejection, response ≠ .rejected rejection) :
      Step log ⟨s, q, .applied e response tx⟩ ⟨tx, q.tail, .idle⟩
  -- storage reports an error, at any point
  | halt {s q phase} : Step log ⟨s, q, phase⟩ ⟨s, q, .stopped⟩
  -- a crash at any point, or the restart of a member that stopped
  | restart {s q phase} : Step log ⟨s, q, phase⟩ (.start log s)

/-- What the work on the entry at the head of the queue has established. -/
def Phase.Coherent (s : Replicated κ μ) (q : List (Entry γ μ)) : Phase κ γ ο μ → Prop
  | .idle | .stopped => True
  | .opened e w tx => q.head? = some e ∧ e.payload = .normal w ∧ tx = s.recordApplied e.logId
  | .applied e response tx => ∃ w data, q.head? = some e ∧ e.payload = .normal w ∧
      exec (applyWrite env logic w) s.data = (.ok response, data) ∧ tx = { s.recordApplied e.logId with data := data }
  | .dropped e => ∃ w rejection data, q.head? = some e ∧ e.payload = .normal w ∧
      exec (applyWrite env logic w) s.data = (.ok (.rejected rejection), data)

/-- The member's database has applied `n` entries and its queue holds the others. -/
structure Member.At (init : Replicated κ μ) (log : List (Entry γ μ)) (n : Nat) (m : Member κ γ ο μ) : Prop where
  applied : Replay.Applied (entryEffect env logic) init log n m.durable
  queue : m.queue = log.drop n
  phase : m.phase.Coherent env logic m.durable m.queue

section Member

variable {env logic} {init s : Replicated κ μ} {log : List (Entry γ μ)} {n : Nat}

theorem lastApplied_entryEffect (e : Entry γ μ) (s s' : Replicated κ μ) (h : entryEffect env logic e s = some s') :
    s'.lastApplied = some e.logId := by
  unfold entryEffect at h
  split at h
  · exact (congrArg _ (Option.some.inj h)).symm
  · exact (congrArg _ (Option.some.inj h)).symm
  · split at h
    · exact (congrArg _ (Option.some.inj h)).symm
    · exact (congrArg _ (Option.some.inj h)).symm
    · cases h

/-- The position in a database that has applied a prefix of the log is that of the prefix. -/
theorem lastApplied_eq (h : Replay.Applied (entryEffect env logic) init log n s) :
    s.lastApplied = (((log.take n).getLast?).map fun e => some e.logId).getD init.lastApplied :=
  h.last lastApplied_entryEffect

/-- A member that starts is handed exactly what its database has not applied. -/
theorem start_queue (hlog : log.Pairwise fun e e' => e.number < e'.number)
    (hinit : ∀ e ∈ log, ∀ id ∈ init.lastApplied, id.index.toNat < e.number)
    (h : Replay.Applied (entryEffect env logic) init log n s) :
    (Member.start log s : Member κ γ ο μ).queue = log.drop n := by
  have hlast := lastApplied_eq h
  show Replay.after Entry.number log (s.lastApplied.map (·.index.toNat)) = log.drop n
  cases n with
  | zero =>
    have hlast : s.lastApplied = init.lastApplied := hlast
    apply Replay.after_eq_self
    intro e he last hmem
    obtain ⟨id, hid, rfl⟩ := Option.mem_map.mp hmem
    rw [hlast] at hid
    exact hinit e he id hid
  | succ n =>
    obtain ⟨e, he⟩ : ∃ e, log[n]? = some e := ⟨_, List.getElem?_eq_getElem h.le⟩
    rw [List.take_add_one, he, Option.toList_some, List.getLast?_append_of_ne_nil _ (List.cons_ne_nil e [])] at hlast
    rw [hlast]
    exact Replay.after_eq_drop hlog he

/-- Going on to the next entry. -/
theorem Member.At.next {m : Member κ γ ο μ} (h : m.At env logic init log n) {e : Entry γ μ}
    (he : m.queue.head? = some e) {s' : Replicated κ μ} (hs : entryEffect env logic e m.durable = some s') :
    Member.At env logic init log (n + 1) (⟨s', m.queue.tail, .idle⟩ : Member κ γ ο μ) := by
  rw [h.queue, List.head?_drop] at he
  refine ⟨h.applied.next he hs, ?_, trivial⟩
  rw [h.queue, List.tail_drop]

/-- One step keeps a member at its position or moves it to the next. -/
theorem step_at (hlog : log.Pairwise fun e e' => e.number < e'.number)
    (hinit : ∀ e ∈ log, ∀ id ∈ init.lastApplied, id.index.toNat < e.number) {m m' : Member κ γ ο μ}
    (hstep : Step env logic log m m') (h : m.At env logic init log n) : ∃ n', m'.At env logic init log n' := by
  cases hstep with
  | blank he => exact ⟨n + 1, h.next rfl (by simp only [entryEffect, he]; rfl)⟩
  | membership he => exact ⟨n + 1, h.next rfl (by simp only [entryEffect, he]; rfl)⟩
  | open_ he => exact ⟨n, h.applied, h.queue, rfl, he, rfl⟩
  | write hx =>
    obtain ⟨he, hw, htx⟩ := h.phase
    dsimp only at htx
    subst htx
    exact ⟨n, h.applied, h.queue, _, _, he, hw, hx, rfl⟩
  | fail hx => exact ⟨n, h.applied, h.queue, trivial⟩
  | drop =>
    obtain ⟨w, data, he, hw, hx, -⟩ := h.phase
    exact ⟨n, h.applied, h.queue, w, _, data, he, hw, hx⟩
  | advance =>
    obtain ⟨w, rejection, data, he, hw, hx⟩ := h.phase
    exact ⟨n + 1, h.next he (entryEffect_of_rejected hw hx)⟩
  | commit hok =>
    obtain ⟨w, data, he, hw, hx, htx⟩ := h.phase
    dsimp only at htx
    subst htx
    exact ⟨n + 1, h.next he (entryEffect_of_ok hw hx hok)⟩
  | halt => exact ⟨n, h.applied, h.queue, trivial⟩
  | restart => exact ⟨n, h.applied, start_queue hlog hinit h.applied, trivial⟩

/-- Every state of a member is at some position of the log. -/
theorem run_at (hlog : log.Pairwise fun e e' => e.number < e'.number)
    (hinit : ∀ e ∈ log, ∀ id ∈ init.lastApplied, id.index.toNat < e.number) {m : Member κ γ ο μ}
    (h : Relation.ReflTransGen (Step env logic log) (.start log init) m) : ∃ n, m.At env logic init log n := by
  induction h with
  | refl =>
    have hzero : Replay.Applied (entryEffect env logic) init log 0 init := .zero
    exact ⟨0, hzero, start_queue hlog hinit hzero, trivial⟩
  | tail _ hstep ih =>
    obtain ⟨n, hn⟩ := ih
    exact step_at hlog hinit hstep hn

end Member

end Log

/-! ## A rejected entry and two crashes -/

namespace Sample

/-- A cluster without commands. -/
def noCluster : ClusterLogic Unit Empty Unit Empty := ⟨Empty.elim, Empty.elim, Empty.elim, Empty.elim⟩

def checked : Env := ⟨true, fun _ _ => Uuid.ofNat 0⟩

def init : Replicated Unit Unit := ⟨⟨.empty, ()⟩, none, ⟨none, ()⟩⟩

/-- The deletion of a bucket that does not exist, in a batch of its own. -/
def absent : ClusterWrite Empty := .batch [.metadata (.deleteBucket ⟨"absent", by decide⟩ .epoch)]

def entry : Entry Empty Unit := ⟨⟨1, 1, 1⟩, .normal absent⟩

theorem exec_absent (id : LogId) : exec (applyWrite checked noCluster absent) (init.recordApplied id).data =
    (.ok (.rejected (classifyMetadataError .bucketNotFound)), init.data) := rfl

/-- The member is interrupted in the open transaction, and again after it dropped the transaction. -/
theorem reaches : Relation.ReflTransGen (Step checked noCluster [entry]) (.start [entry] init)
    ⟨commitAppliedOnly entry.logId init, [], .idle⟩ := by
  have hopen : Step checked noCluster [entry] ⟨init, [entry], .idle⟩
      ⟨init, [entry], .opened entry absent (init.recordApplied entry.logId)⟩ := .open_ rfl
  have hwrite : Step checked noCluster [entry] ⟨init, [entry], .opened entry absent (init.recordApplied entry.logId)⟩
      ⟨init, [entry], .applied entry _ { init.recordApplied entry.logId with data := init.data }⟩ :=
        .write (exec_absent _)
  refine .head hopen (.head .restart (.head hopen (.head hwrite (.head .drop (.head .restart ?_)))))
  exact .head hopen (.head hwrite (.head .drop (.single .advance)))

end Sample

section SingleNode

variable {κ γ ο χ μ : Type} {env : Env} {logic : ClusterLogic κ γ ο χ}

def Command.catalog? : Command γ → Option MetadataCommand
  | .metadata c => some c
  | .cluster _ => none

def Entry.commands (e : Entry γ μ) : List (Command γ) :=
  match e.payload with
  | .normal w => Consensus.commands w
  | _ => []

def Entry.catalogCommands (e : Entry γ μ) : List MetadataCommand := e.commands.filterMap Command.catalog?

/-- A single node, with a transaction for each command, gets from `s` to `s'` by the entries in order.  Only batches
may be left out. -/
def SingleNode (env : Env) (entries : List (Entry γ μ)) (s s' : Catalog) : Prop :=
  ∃ kept : List (Entry γ μ), kept.Sublist entries ∧
    (entries.filter fun e => decide (e.commands.length ≤ 1)).Sublist kept ∧
    (kept.flatMap Entry.catalogCommands).foldl (Metadata.step env) s = s'

/-- In a transaction of its own a command does what it does on a single node, refused or not. -/
theorem commit_perform (c : Command γ) (s : Data κ) :
    (commit (perform env logic c) s).2.catalog = c.catalog?.toList.foldl (Metadata.step env) s.catalog := by
  have hget : exec (get : Tx (Data κ) DurableFailure _) s = (.ok s, s) := rfl
  have hset (s' : Data κ) : exec (set s' : Tx (Data κ) DurableFailure _) s = (.ok ⟨⟩, s') := rfl
  unfold commit
  rw [exec_perform]
  cases c with
  | metadata c =>
    show _ = (commit (applyCommandTx env c) s.catalog).2
    simp only [answer, applyMetadataCommand, exec_bind, hget, hset, commit]
    rcases exec (applyCommandTx env c) s.catalog with ⟨(e | site) | out, catalog⟩
    · cases hd : isDurableMetadataFailure e <;> simp only [hd] <;> rfl
    · rfl
    · rfl
  | cluster c =>
    simp only [answer, applyClusterCommand, exec_bind, hget, hset]
    rcases exec (logic.apply c) s.cluster with ⟨e | out, cluster⟩
    · cases hd : logic.isDurable e <;> simp only [hd] <;> rfl
    · rfl

theorem catalog_of_returns {cs : List (Command γ)} {s s' : Data κ} (h : Returns (cs.forM (perform env logic)) s () s') :
    (cs.filterMap Command.catalog?).foldl (Metadata.step env) s.catalog = s'.catalog := by
  induction cs generalizing s with
  | nil => exact congrArg Data.catalog (returns_pure.mp h).2.symm
  | cons c cs ih =>
    obtain ⟨_, s₁, hc, hcs⟩ := returns_bind.mp h
    have hone : (commit (perform env logic c) s).2.catalog = _ := commit_perform c s
    rw [commit_of_returns hc] at hone
    rw [← ih hcs, hone, ← List.foldl_append]
    cases c <;> rfl

/-- An entry runs its commands, or it is a rejected batch. -/
theorem entryEffect_catalog {e : Entry γ μ} {s s' : Replicated κ μ} (h : entryEffect env logic e s = some s') :
    e.catalogCommands.foldl (Metadata.step env) s.data.catalog = s'.data.catalog ∨
      s.data = s'.data ∧ 1 < e.commands.length := by
  unfold Entry.catalogCommands Entry.commands
  cases he : e.payload with
  | normal w =>
    simp only [entryEffect, he] at h ⊢
    rcases returns_or_fails ((commands w).forM (perform env logic)) s.data with ⟨_, data, hret⟩ | ⟨refusal, hfails⟩
    · rw [commit_of_returns hret] at h
      cases h
      exact .inl (catalog_of_returns hret)
    · have hcommit := commit_of_fails hfails
      have hkept : s.data = s'.data := by
        rw [hcommit] at h
        cases refusal <;> cases h
        rfl
      rw [← hkept]
      rcases hw : commands w with _ | ⟨c, _ | ⟨c', cs⟩⟩
      · exact .inl rfl
      · have hone : (commit (perform env logic c) s.data).2.catalog = _ := commit_perform c s.data
        unfold commit at hone hcommit
        rw [hw, exec_perform_one, ← exec_perform] at hcommit
        rw [hcommit] at hone
        cases c <;> exact .inl hone.symm
      · exact .inr ⟨rfl, by simp⟩
  | _ =>
    simp only [entryEffect, he] at h
    cases h
    exact .inl rfl

theorem singleNode_of_effects {entries : List (Entry γ μ)} {s s' : Replicated κ μ}
    (h : entries.foldlM (fun s e => entryEffect env logic e s) s = some s') :
    SingleNode env entries s.data.catalog s'.data.catalog := by
  induction entries generalizing s with
  | nil =>
    cases h
    exact ⟨[], .slnil, .slnil, rfl⟩
  | cons e entries ih =>
    obtain ⟨s₁, hs, h⟩ := Option.bind_eq_some_iff.mp h
    obtain ⟨kept, hsub, hall, hcat⟩ := ih h
    rcases entryEffect_catalog hs with hrun | ⟨hsame, hbatch⟩
    · refine ⟨e :: kept, hsub.cons_cons e, ?_, ?_⟩
      · rw [List.filter_cons]
        split_ifs
        · exact hall.cons_cons e
        · exact hall.cons e
      · rw [← hcat, ← hrun, List.flatMap_cons, List.foldl_append]
    · refine ⟨kept, hsub.cons e, ?_, hsame ▸ hcat⟩
      rwa [List.filter_cons_of_neg (by simpa using hbatch)]

/-- Through any crashes, a member's catalog is the one a single node gets from the entries up to its position.  From an
empty catalog, with fresh version identifiers in the log, it is therefore sound. -/
theorem catalog_refines_single_node (init : Replicated κ μ) (log : List (Entry γ μ))
    (hlog : log.Pairwise fun e e' => e.number < e'.number)
    (hinit : ∀ e ∈ log, ∀ id ∈ init.lastApplied, id.index.toNat < e.number) (m : Member κ γ ο μ)
    (h : Relation.ReflTransGen (Step env logic log) (.start log init) m) :
    (∃ n ≤ log.length, SingleNode env (log.take n) init.data.catalog m.durable.data.catalog ∧
      m.durable.lastApplied = (((log.take n).getLast?).map fun e => some e.logId).getD init.lastApplied) ∧
    (init.data.catalog = .empty → FreshVersions (log.flatMap Entry.catalogCommands) →
      Sound m.durable.data.catalog) := by
  obtain ⟨n, ⟨hn, heq⟩, -, -⟩ := run_at hlog hinit h
  have hnode := singleNode_of_effects heq
  refine ⟨⟨n, hn, hnode, lastApplied_eq ⟨hn, heq⟩⟩, fun hempty hfresh => ?_⟩
  obtain ⟨kept, hsub, -, hcat⟩ := hnode
  rw [← hcat, hempty]
  refine (sound_run env _ (hfresh.sublist ?_)).1
  exact ((hsub.trans (List.take_sublist n log)).flatMap _).filterMap _

end SingleNode

theorem catalog_refines_single_node_crashes : Sound (commitAppliedOnly Sample.entry.logId Sample.init).data.catalog :=
  (catalog_refines_single_node Sample.init [Sample.entry] (List.pairwise_singleton _ _) (by simp [Sample.init]) _
    Sample.reaches).2 rfl (by decide)

end RecordStore.Consensus

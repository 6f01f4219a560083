import RecordStore.Lib.Pool
import RecordStore.Cluster.Nodes

/-!
# Replication.Detection — failure detection against operators

`evaluate_node` and `detect_failures`.  A pass reads the topology, decides for every node, and proposes one
`SetNodeState` after the other.  Between the read and a proposal an operator may have drained the node, put
it into maintenance or decommissioned it; the proposal is applied to whatever it finds.
-/

namespace RecordStore.Replication.Detection

open RecordStore.Lib RecordStore.Core RecordStore.Cluster Tx

/-! ## Evaluating a node -/

/-- The states that are operator decisions. -/
def isAdministrative : NodeState → Bool
  | .draining | .maintenance | .decommissioned => true
  | _ => false

/-- `signed_duration_since` in nanoseconds.  A leap second is counted by the clock times alone, whatever the dates. -/
def signedDurationSince (now past : DateTime) : Int :=
  let adjust : Int :=
    if past.seconds % 86400 < now.seconds % 86400 then if past.nanoseconds ≥ 1000000000 then 1 else 0
    else if now.seconds % 86400 < past.seconds % 86400 then if now.nanoseconds ≥ 1000000000 then -1 else 0
    else 0
  (now.seconds - past.seconds + adjust) * 1000000000 + ((now.nanoseconds : Int) - past.nanoseconds)

/-- `seconds`: a timeout in nanoseconds, zero when it does not fit. -/
def seconds (value : UInt64) : Int := if value.toNat ≤ 9223372036854775 then value.toNat * 1000000000 else 0

/-- A proposed lifecycle transition. -/
structure HealthTransition where
  state : NodeState
  reason : String
  deriving DecidableEq

def transition (n : NodeRecord) (state : NodeState) (reason : String) : Option HealthTransition :=
  if n.state = state then none else if n.state.canTransitionTo state then some ⟨state, reason⟩ else none

/-- The reason given for a silent node. -/
def silent (silence : Int) (timeout : UInt64) (name : String) : String :=
  "no heartbeat for " ++ (max (silence.tdiv 1000000000) 0).toNat.repr ++ "s, exceeding the " ++ timeout.toNat.repr ++
    "s " ++ name ++ " timeout"

/-- Evaluates one node against the failure-detection policy. -/
def evaluateNode (n : NodeRecord) (policy : FailureDetectionPolicy) (now : DateTime) : Option HealthTransition :=
  if isAdministrative n.state then none
  else
    let silence := signedDurationSince now (n.lastHeartbeatAt.getD n.joinedAt)
    if seconds policy.offlineTimeoutSeconds ≤ silence then
      transition n .offline (silent silence policy.offlineTimeoutSeconds "offline")
    else if seconds policy.suspectTimeoutSeconds ≤ silence then
      if n.state = .unreachable then none
      else transition n .suspect (silent silence policy.suspectTimeoutSeconds "suspect")
    else transition n .healthy "heartbeats are current"

/-! ## Passes and operators -/

/-- The view `topology` reads. -/
def readTopology (s : ClusterCatalog) : Option ClusterTopology := do
  let identity ← s.identity
  let config ← s.config
  return .atEpoch identity.clusterId config s.nodes.rows (s.readCounter "cluster_map_epoch")

/-- What a pass proposes, in the order of the nodes. -/
def proposals (t : ClusterTopology) (now : DateTime) : List (NodeId × HealthTransition) :=
  t.nodes.filterMap fun n => (evaluateNode n t.config.failureDetection now).map fun x => (n.nodeId, x)

/-- A pass of `detect_failures`: when it read the topology, and what it has left to propose. -/
structure Pass where
  readAt : Nat
  now : DateTime
  todo : List (NodeId × HealthTransition)

/-- The catalog, and a history of what operators decided. -/
structure Board where
  catalog : ClusterCatalog
  -- the number of events so far
  clock : Nat
  -- when an operator set the state the node is in
  decidedAt : NodeId → Option Nat
  -- the administrative state the last operator command for the node asked for
  intent : NodeId → Option NodeState
  -- nodes that detection took out of a state an operator set after the topology was read
  overridden : List NodeId
  -- nodes that detection returned to healthy while an administrative decision stood
  revived : List NodeId

namespace Board

def stateOf (b : Board) (id : NodeId) : Option NodeState := (b.catalog.node id).map (·.state)

/-- A command is committed: a decision ends when its node changes state, and with the node. -/
def committed (b : Board) (c : ClusterCommand) : Board :=
  let catalog := (commit (applyCommandTx c) b.catalog).2
  { b with
    catalog := catalog
    clock := b.clock + 1
    decidedAt := fun id => if (catalog.node id).map (·.state) = b.stateOf id then b.decidedAt id else none
    intent := fun id => if (catalog.node id).isSome then b.intent id else none }

/-- An operator's `SetNodeState`. -/
def decide (b : Board) (id : NodeId) (state : NodeState) (reason : Option String) (time : DateTime) : Board :=
  let c := ClusterCommand.setNodeState id state reason time
  match (commit (applyCommandTx c) b.catalog).1 with
  | .error _ => { b with clock := b.clock + 1 }
  | .ok _ =>
    let b' := b.committed c
    { b' with
      decidedAt := fun i => if i = id then some b.clock else b'.decidedAt i
      intent := fun i => if i = id then (if isAdministrative state then some state else none) else b'.intent i }

/-- A `SetNodeState` of a pass that read the topology at `readAt`. -/
def detect (b : Board) (readAt : Nat) (now : DateTime) (id : NodeId) (x : HealthTransition) : Board :=
  let b' := b.committed (.setNodeState id x.state (some x.reason) now)
  let moved := b'.stateOf id ≠ b.stateOf id
  { b' with
    overridden := if moved ∧ (b.decidedAt id).any (readAt ≤ ·) then id :: b.overridden else b.overridden
    revived := if moved ∧ x.state = .healthy ∧ (b.intent id).isSome then id :: b.revived else b.revived }

end Board

/-- What a pass does next: its proposal is applied, or is lost; after a failure or a lost answer the pass ends, and the
proposal may still be applied. -/
inductive Move where
  | apply
  | lose
  | end_

abbrev Pool := Lib.Pool Board Pass

def Pass.step (b : Board) (p : Pass) : Move → Option (Board × Pass)
  | .apply =>
    match p.todo with
    | [] => none
    | (id, x) :: rest =>
      -- a rejection ends the pass
      let rest := match (commit (applyCommandTx (.setNodeState id x.state (some x.reason) p.now)) b.catalog).1 with
        | .ok _ => rest
        | .error _ => []
      some (b.detect p.readAt p.now id x, { p with todo := rest })
  | .lose => some (b, { p with todo := p.todo.tail })
  | .end_ => some (b, { p with todo := p.todo.take 1 })

inductive Event where
  -- a pass starts by reading the topology
  | read (now : DateTime)
  | move (i : Nat) (m : Move)
  | operator (id : NodeId) (state : NodeState) (reason : Option String) (time : DateTime)
  -- any other command: heartbeats, registrations, removals and all that is not about nodes
  | command (c : ClusterCommand)

def isSetNodeState : ClusterCommand → Bool
  | .setNodeState _ _ _ _ => true
  | _ => false

def step (s : Pool) : Event → Option Pool
  | .read now => do
    let t ← readTopology s.shared.catalog
    return { s.spawn ⟨s.shared.clock, now, proposals t now⟩ with
      shared := { s.shared with clock := s.shared.clock + 1 } }
  | .move i m => s.work Pass.step i m
  | .operator id state reason time => some { s with shared := s.shared.decide id state reason time }
  | .command c => if isSetNodeState c then none else some { s with shared := s.shared.committed c }

/-- An operator's command comes only while no pass that read the topology before has a proposal for the node. -/
def Undisturbed (s : Pool) : Event → Prop
  | .operator id _ _ _ => ∀ p ∈ s.procs, ∀ x ∈ p.todo, x.1 ≠ id
  | _ => True

/-! ## What a command leaves of a decision -/

section Commands

variable {s s' : ClusterCatalog} {c : ClusterCommand} {o : ClusterOutcome} {id : NodeId} {n : NodeRecord}

theorem state_transition {moved : NodeRecord} {state : NodeState} {reason : Option String} {time : DateTime}
    {changed : Bool} (h : n.transition state reason time = .ok (moved, changed)) : moved.state = state := by
  unfold NodeRecord.transition at h
  split_ifs at h with hsame hallowed
  · cases h
    exact hsame
  · cases h
    rfl

theorem state_ensureLegacyDevice (n : NodeRecord) : n.ensureLegacyDevice.state = n.state := by
  unfold NodeRecord.ensureLegacyDevice
  split_ifs <;> rfl

/-- `SetNodeState` sets the state of its node and touches no other. -/
theorem returns_setNodeState {state : NodeState} {reason : Option String} {time : DateTime}
    (h : Returns (applyCommandTx (.setNodeState id state reason time)) s o s') :
    (s'.node id).map (·.state) = some state ∧ ∀ i, i ≠ id → s'.node i = s.node i := by
  cases nodeEffect_of_returns h with
  | same hc h => cases hc
  | report h hc hid hstate hdevices => cases hc
  | setState hmoved h =>
    have hstate := state_transition hmoved
    constructor
    · rw [node_insert h.2, if_pos rfl]
      split_ifs
      · exact congrArg some hstate
      · exact congrArg some hstate
    · intro i hi
      rw [node_insert h.2, if_neg hi]

/-- Any other command keeps the state of a node that is administrative, or removes the node. -/
theorem state_kept (h : NodeEffect s c s') (hc : isSetNodeState c = false) (hn : s.node id = some n)
    (hadmin : isAdministrative n.state = true) : s'.node id = none ∨ (s'.node id).map (·.state) = some n.state := by
  -- a record that is written over another one with the same state
  have hrewrites : ∀ {i : NodeId} {m m' : NodeRecord}, Rewrites s i m m' s' → m'.state = m.state →
      (s'.node id).map (·.state) = some n.state := by
    intro i m m' hw hstate
    rw [node_insert hw.2]
    split_ifs with hi
    · subst hi
      obtain rfl : m = n := Option.some.inj (hw.1.symm.trans hn)
      exact congrArg some hstate
    · rw [hn]
      rfl
  cases h with
  | same _ h => exact .inr (by rw [node_congr h, hn]; rfl)
  | join hnone h =>
    rw [node_insert h]
    split_ifs with hi
    · subst hi
      rw [hnone] at hn
      cases hn
    · exact .inr (by rw [hn]; rfl)
  | rejoin h _ => exact .inr (hrewrites h rfl)
  | comeBack h hreturning hmoved =>
    rw [node_insert h.2]
    split_ifs with hi
    · subst hi
      obtain rfl : _ = n := Option.some.inj (h.1.symm.trans hn)
      -- a node that returns was in no administrative state
      rcases hreturning with hs | hs | hs
      all_goals
        rw [hs] at hadmin
        cases hadmin
    · exact .inr (by rw [hn]; rfl)
  | report h _ _ hstate _ => exact .inr (hrewrites h hstate)
  | setState hmoved h => cases hc
  | registerDevice hrecorded h => exact .inr (hrewrites h (state_ensureLegacyDevice _))
  | setDeviceState _ _ _ h => exact .inr (hrewrites h rfl)
  | unknown _ => exact .inr (by rw [hn]; rfl)
  | forget hforgotten _ _ h =>
    rw [node_erase _ h]
    split_ifs with hi
    · exact .inl rfl
    · exact .inr (by rw [hn]; rfl)

end Commands

/-! ## The invariant -/

/-- A standing decision is the state of its node, and nothing has been overridden. -/
structure Respected (b : Board) : Prop where
  named : b.catalog.Named
  stands : ∀ id state, b.intent id = some state → b.stateOf id = some state ∧ isAdministrative state = true
  past : ∀ id t, b.decidedAt id = some t → t < b.clock
  clean : b.overridden = [] ∧ b.revived = []

/-- No decision stands on a node the pass has a proposal for, and none was made since its read. -/
def Pass.Free (b : Board) (p : Pass) : Prop :=
  ∀ x ∈ p.todo, b.intent x.1 = none ∧ ∀ t, b.decidedAt x.1 = some t → t < p.readAt

section Board

variable {b : Board} {c : ClusterCommand} {p : Pass}

theorem node_of_stateOf {id : NodeId} {state : NodeState} (h : b.stateOf id = some state) :
    ∃ n, b.catalog.node id = some n ∧ n.state = state := Option.map_eq_some_iff.mp h

/-- A command adds no decision. -/
theorem committed_fewer (id : NodeId) :
    (∀ state, (b.committed c).intent id = some state → b.intent id = some state ∧
      ((commit (applyCommandTx c) b.catalog).2.node id).isSome = true) ∧
      ∀ t, (b.committed c).decidedAt id = some t → b.decidedAt id = some t := by
  constructor
  · intro state h
    simp only [Board.committed] at h
    split_ifs at h with hsome
    exact ⟨h, hsome⟩
  · intro t h
    simp only [Board.committed] at h
    split_ifs at h
    exact h

/-- A command that keeps the state of every node with a standing decision keeps what is known of the board. -/
theorem Respected.committed (h : Respected b)
    (hkeeps : ∀ id state, b.intent id = some state → ∀ o s', Returns (applyCommandTx c) b.catalog o s' →
      s'.node id = none ∨ (s'.node id).map (·.state) = some state) : Respected (b.committed c) := by
  have hcatalog : (b.committed c).catalog = (commit (applyCommandTx c) b.catalog).2 := rfl
  refine ⟨?_, ?_, ?_, h.clean⟩
  · exact commit_preserves (P := ClusterCatalog.Named) h.named fun _ _ hret =>
      (nodeEffect_of_returns hret).named h.named
  · intro id state hintent
    obtain ⟨hintent, hsome⟩ := (committed_fewer id).1 state hintent
    obtain ⟨hstate, hadmin⟩ := h.stands id state hintent
    refine ⟨?_, hadmin⟩
    rw [Board.stateOf, hcatalog]
    rcases returns_or_fails (applyCommandTx c) b.catalog with ⟨o, s', hret⟩ | ⟨e, hfail⟩
    · rw [commit_of_returns hret] at hsome ⊢
      rcases hkeeps id state hintent o s' hret with hnone | hkept
      · rw [hnone] at hsome
        cases hsome
      · exact hkept
    · rw [commit_of_fails hfail]
      exact hstate
  · intro id t ht
    exact Nat.lt_succ_of_lt (h.past id t ((committed_fewer id).2 t ht))

theorem Pass.Free.committed (h : p.Free b) : p.Free (b.committed c) := by
  intro x hx
  obtain ⟨hintent, hdecided⟩ := h x hx
  refine ⟨?_, fun t ht => hdecided t ((committed_fewer x.1).2 t ht)⟩
  by_contra hne
  obtain ⟨state, hstate⟩ := Option.ne_none_iff_exists'.mp hne
  rw [((committed_fewer x.1).1 state hstate).1] at hintent
  cases hintent

theorem Pass.Free.sublist {p' : Pass} (h : p.Free b) (hsub : p'.todo ⊆ p.todo) (hread : p'.readAt = p.readAt) :
    p'.Free b := by
  intro x hx
  rw [hread]
  exact h x (hsub hx)

theorem Pass.Free.detect {readAt : Nat} {now : DateTime} (h : p.Free b) (id : NodeId) (x : HealthTransition) :
    p.Free (b.detect readAt now id x) := h.committed

/-- A pass that reads the topology proposes nothing for a node with a standing decision. -/
theorem free_of_read (h : Respected b) {topology : ClusterTopology} (ht : readTopology b.catalog = some topology)
    (now : DateTime) : Pass.Free b ⟨b.clock, now, proposals topology now⟩ := by
  intro x hx
  refine ⟨?_, fun t ht => h.past x.1 t ht⟩
  obtain ⟨n, hn, hx⟩ := List.mem_filterMap.mp hx
  obtain ⟨transition, htransition, rfl⟩ := Option.map_eq_some_iff.mp hx
  have hnodes : topology.nodes = (b.catalog.nodes.rows.map NodeRecord.ensureLegacyDevice).insertionSort
      ClusterTopology.nodeOrder := by
    unfold readTopology at ht
    obtain ⟨identity, -, ht⟩ := Option.bind_eq_some_iff.mp ht
    obtain ⟨config, -, ht⟩ := Option.bind_eq_some_iff.mp ht
    cases ht
    rfl
  rw [hnodes, List.mem_insertionSort, List.mem_map] at hn
  obtain ⟨m, hm, rfl⟩ := hn
  obtain ⟨k, hk⟩ := Table.mem_rows.mp hm
  obtain rfl := h.named k m hk
  by_contra hne
  obtain ⟨state, hstate⟩ := Option.ne_none_iff_exists'.mp hne
  rw [(nodeId_ensureLegacyDevice m).1] at hstate
  obtain ⟨hstands, hadmin⟩ := h.stands _ state hstate
  have hm : b.stateOf m.nodeId = some m.state := congrArg (Option.map _) hk
  obtain rfl := Option.some.inj (hm.symm.trans hstands)
  unfold evaluateNode at htransition
  rw [state_ensureLegacyDevice, hadmin, if_pos rfl] at htransition
  cases htransition

/-- A proposal for a node without a decision overrides none. -/
theorem Respected.detect (h : Respected b) {id : NodeId} (x : HealthTransition) {readAt : Nat} (now : DateTime)
    (hintent : b.intent id = none) (hdecided : ∀ t, b.decidedAt id = some t → t < readAt) :
    Respected (b.detect readAt now id x) := by
  have hcommitted : Respected (b.committed (.setNodeState id x.state (some x.reason) now)) := by
    refine h.committed fun i state hi o s' hret => .inr ?_
    have hne : i ≠ id := by
      rintro rfl
      rw [hintent] at hi
      cases hi
    rw [(returns_setNodeState hret).2 i hne]
    exact (h.stands i state hi).1
  have hnot : (b.decidedAt id).any (readAt ≤ ·) = false := by
    rw [Option.any_eq_false]
    intro t ht
    exact decide_eq_false (Nat.not_le.mpr (hdecided t ht))
  refine ⟨hcommitted.named, hcommitted.stands, hcommitted.past, ?_, ?_⟩
  · simp only [Board.detect, hnot, Bool.false_eq_true, and_false, if_false]
    exact h.clean.1
  · simp only [Board.detect, hintent, Option.isSome_none, Bool.false_eq_true, and_false, if_false]
    exact h.clean.2

/-- An operator's command makes the decision it asks for. -/
theorem Respected.decide (h : Respected b) (id : NodeId) (state : NodeState) (reason : Option String)
    (time : DateTime) : Respected (b.decide id state reason time) := by
  unfold Board.decide
  dsimp only
  rcases returns_or_fails (applyCommandTx (.setNodeState id state reason time)) b.catalog with ⟨o, s',
    hret⟩ | ⟨e, hfail⟩
  · obtain ⟨hself, hothers⟩ := returns_setNodeState hret
    have hcatalog : (b.committed (.setNodeState id state reason time)).catalog = s' := by
      simp only [Board.committed, commit_of_returns hret]
    rw [commit_of_returns hret]
    refine ⟨?_, ?_, ?_, h.clean⟩
    · show (b.committed _).catalog.Named
      rw [hcatalog]
      exact (nodeEffect_of_returns hret).named h.named
    · intro i st hi
      show ((b.committed _).catalog.node i).map (·.state) = some st ∧ _
      rw [hcatalog]
      by_cases hid : i = id
      · subst hid
        simp only [if_true] at hi
        split_ifs at hi with hadmin
        obtain rfl := Option.some.inj hi
        exact ⟨hself, hadmin⟩
      · simp only [if_neg hid] at hi
        rw [hothers i hid]
        exact h.stands i st ((committed_fewer i).1 st hi).1
    · intro i t ht
      show t < b.clock + 1
      by_cases hid : i = id
      · simp only [if_pos hid, Option.some.injEq] at ht
        omega
      · simp only [if_neg hid] at ht
        exact Nat.lt_succ_of_lt (h.past i t ((committed_fewer i).2 t ht))
  · rw [commit_of_fails hfail]
    exact ⟨h.named, h.stands, fun i t ht => Nat.lt_succ_of_lt (h.past i t ht), h.clean⟩

theorem Pass.Free.decide (h : p.Free b) {id : NodeId} (hid : ∀ x ∈ p.todo, x.1 ≠ id) (state : NodeState)
    (reason : Option String) (time : DateTime) : p.Free (b.decide id state reason time) := by
  unfold Board.decide
  dsimp only
  split
  · exact h
  · intro x hx
    obtain ⟨hintent, hdecided⟩ := h.committed x hx
    refine ⟨?_, ?_⟩
    · simp only [if_neg (hid x hx)]
      exact hintent
    · simp only [if_neg (hid x hx)]
      exact hdecided

end Board

section Steps

variable {s s' : Pool} {e : Event}

/-- The board is respected, and no pass has a proposal for a node with a decision it did not see. -/
abbrev Sound (s : Pool) : Prop := s.Holds Respected Pass.Free fun _ _ => True

/-- A move of a pass drops proposals, or puts one of them to the log. -/
theorem step_pass {b b' : Board} {p p' : Pass} {m : Move} (h : p.step b m = some (b', p')) :
    (b' = b ∧ p'.todo ⊆ p.todo ∧ p'.readAt = p.readAt) ∨
      ∃ id x, (id, x) ∈ p.todo ∧ b' = b.detect p.readAt p.now id x ∧ p'.todo ⊆ p.todo ∧ p'.readAt = p.readAt := by
  cases m with
  | lose =>
    cases h
    exact .inl ⟨rfl, List.tail_subset _, rfl⟩
  | end_ =>
    cases h
    exact .inl ⟨rfl, List.take_subset _ _, rfl⟩
  | apply =>
    simp only [Pass.step] at h
    split at h
    · cases h
    · rename_i id x rest htodo
      cases h
      refine .inr ⟨id, x, by rw [htodo]; exact List.mem_cons_self, rfl, ?_, rfl⟩
      rw [htodo]
      dsimp only
      split
      · exact List.subset_cons_self _ _
      · exact List.nil_subset _

theorem Sound.step (h : Sound s) (hok : Undisturbed s e) (hs : step s e = some s') : Sound s' := by
  cases e with
  | read now =>
    obtain ⟨topology, ht, hs⟩ := Option.bind_eq_some_iff.mp hs
    obtain rfl := Option.some.inj hs
    have hspawn := h.spawn (free_of_read h.shared ht now) fun _ => ⟨trivial, trivial⟩
    exact hspawn.change ⟨h.shared.named, h.shared.stands, fun i t ht => Nat.lt_succ_of_lt (h.shared.past i t ht),
      h.shared.clean⟩ fun _ hfree => hfree
  | operator id state reason time =>
    obtain rfl := Option.some.inj hs
    exact h.change (h.shared.decide id state reason time) fun hp hfree =>
      hfree.decide (hok _ (List.mem_of_getElem? hp)) state reason time
  | command c =>
    simp only [Detection.step] at hs
    split_ifs at hs with hc
    obtain rfl := Option.some.inj hs
    refine h.change (h.shared.committed ?_) fun _ hfree => hfree.committed
    intro id state hintent o s₁ hret
    obtain ⟨hstate, hadmin⟩ := h.shared.stands id state hintent
    obtain ⟨n, hn, rfl⟩ := node_of_stateOf hstate
    exact state_kept (nodeEffect_of_returns hret) (by simpa using hc) hn hadmin
  | move i m =>
    refine h.work hs ?_ ?_ fun _ => ⟨fun _ => trivial, fun _ => trivial⟩
    · intro p p' _ hb hfree hstep
      rcases step_pass hstep with ⟨hshared, hsub, hread⟩ | ⟨id, x, hx, hshared, hsub, hread⟩
      · rw [hshared]
        exact ⟨hb, hfree.sublist hsub hread⟩
      · obtain ⟨hintent, hdecided⟩ := hfree _ hx
        rw [hshared]
        exact ⟨hb.detect x p.now hintent hdecided, (hfree.detect id x).sublist hsub hread⟩
    · intro p p' q _ _ hstep _ hq
      rcases step_pass hstep with ⟨hshared, -, -⟩ | ⟨id, x, -, hshared, -, -⟩
      · rw [hshared]
        exact hq
      · rw [hshared]
        exact hq.detect id x

end Steps

/-! ## Whole runs -/

/-- An empty cluster. -/
def initial : Pool := ⟨⟨.empty, 0, fun _ => none, fun _ => none, [], []⟩, []⟩

theorem sound_initial : Sound initial := by
  refine ⟨⟨?_, ?_, ?_, rfl, rfl⟩, ?_, ?_⟩
  · intro k n hn
    simp [initial, ClusterCatalog.empty] at hn
  · intro id state hi
    cases hi
  · intro id t ht
    cases ht
  · intro i p hp
    cases hp
  · intro i j p q _ hp
    cases hp

instance (s : Pool) : (e : Event) → Decidable (Undisturbed s e)
  | .operator id _ _ _ => inferInstanceAs (Decidable (∀ p ∈ s.procs, ∀ x ∈ p.todo, x.1 ≠ id))
  | .read _ | .move _ _ | .command _ => isTrue trivial

/-- In a run in which operators act only on nodes that no running pass has a proposal for, detection takes no node
out of a state an operator set after the topology was read, and returns no node to healthy while an administrative
decision stands. -/
theorem detection_respects_operators (events : List Event) (s : Pool) (hok : Meets step Undisturbed initial events)
    (hrun : run step initial events = some s) :
    s.shared.overridden = [] ∧ s.shared.revived = [] ∧
      ∀ id state, s.shared.intent id = some state → s.shared.stateOf id = some state := by
  have hsound := run_invariant (fun _ _ _ h hok hs => h.step hok hs) events sound_initial hok hrun
  exact ⟨hsound.shared.clean.1, hsound.shared.clean.2, fun id state h => (hsound.shared.stands id state h).1⟩

namespace Sample

def node : NodeId := .ofNat 1

/-- Past the offline timeout. -/
def late : DateTime := .ofSeconds 200

/-- A node joins, and a first pass finds it healthy. -/
def founding : List Event :=
  [.command (.initializeCluster ⟨.ofNat 1, 1, .epoch, 0, none, none⟩ .default),
    .command (.registerNode ⟨node, "n1:7603", defaultStorageClass, [], ⟨100, 100, 0, 0⟩, []⟩ .epoch),
    .read .epoch, .move 0 .apply]

def drain : Event := .operator node .draining none late

end Sample

/-- The node is drained before the next pass reads the topology, and the pass leaves it alone. -/
theorem detection_respects_operators_drained : ∃ s,
    run step initial (Sample.founding ++ [Sample.drain, .read Sample.late]) = some s ∧
    s.shared.overridden = [] ∧ s.shared.stateOf Sample.node = some .draining := by
  obtain ⟨s, hrun, hintent⟩ : ∃ s, run step initial (Sample.founding ++ [Sample.drain, .read Sample.late]) = some s ∧
      s.shared.intent Sample.node = some .draining := by decide +kernel
  obtain ⟨hoverridden, -, hstands⟩ := detection_respects_operators _ s (by decide +kernel) hrun
  exact ⟨s, hrun, hoverridden, hstands _ _ hintent⟩

/-- A pass reads the topology while the node is silent; an operator drains the node; the pass marks it offline.  When
the node is heard again, the next pass returns it to healthy. -/
theorem stale_pass_undoes_drain : ∃ s,
    run step initial (Sample.founding ++ [.read Sample.late, Sample.drain, .move 1 .apply,
      .command (.heartbeat Sample.node ⟨100, 100, 0, 0⟩ Sample.late), .read Sample.late, .move 2 .apply]) = some s ∧
    s.shared.overridden = [Sample.node] ∧ s.shared.revived = [Sample.node] ∧
      s.shared.intent Sample.node = some .draining ∧ s.shared.stateOf Sample.node = some .healthy := by
  decide +kernel

end RecordStore.Replication.Detection

import RecordStore.Cluster.Nodes

/-!
# Cluster.Rejoin — a node that comes back

A node that restarts registers again.  The command asks for the transition to `Joining` from each of the
three states in which failure detection can leave a node; the table of transitions allows it from
`Offline` alone.
-/

namespace RecordStore.Cluster

open RecordStore.Lib RecordStore.Core Tx ClusterCatalog

variable {s : ClusterCatalog} {n : NodeRecord} {r : NodeRegistration} {time : DateTime}

/-- The state in which a node is to be found after it has come back. -/
def NodeState.onReturn : NodeState → NodeState
  | .suspect | .unreachable | .offline => .joining
  | state => state

/-- The registration succeeds and leaves what a node keeps over a restart. -/
def Welcomed (s : ClusterCatalog) (n : NodeRecord) (r : NodeRegistration) (time : DateTime) : Prop :=
  ∃ record s', Returns (applyCommandTx (.registerNode r time)) s (.registration record n.raftId false) s' ∧
    s'.node r.nodeId = some record ∧ record.raftId = n.raftId ∧ record.metadataVoter = n.metadataVoter ∧
    record.state = n.state.onReturn ∧ s'.nodeByMember = s.nodeByMember

theorem state_refresh (n : NodeRecord) (r : NodeRegistration) (time : DateTime) :
    (n.refresh r time).state = n.state := rfl

/-- A node that is not taken for lost keeps its record but for what it declares. -/
theorem returns_rejoin (hn : s.node r.nodeId = some n) (hstate : ¬ n.state.returning) :
    Returns (registerNode r time) s (.registration (n.refresh r time) n.raftId false)
      (s.putNode r.nodeId (n.refresh r time)).advanceClusterMapEpoch := by
  simp only [registerNode, returns_bind, returns_read]
  refine ⟨_, s, ⟨rfl, rfl⟩, ?_⟩
  rw [hn]
  simp only [returns_ite, returns_bind, returns_map, returns_ofExcept, returns_modify, returns_pure]
  exact .inr ⟨hstate, _, _, ⟨rfl, rfl⟩, (), _, rfl, rfl, rfl⟩

/-- A node that is taken for lost has to make the transition. -/
theorem returns_comeBack {moved : NodeRecord} {changed : Bool} (hn : s.node r.nodeId = some n)
    (hstate : n.state.returning)
    (hmoved : (n.refresh r time).transition .joining (some "node restarted") time = .ok (moved, changed)) :
    Returns (registerNode r time) s (.registration moved moved.raftId false)
      (s.putNode r.nodeId moved).advanceClusterMapEpoch := by
  simp only [registerNode, returns_bind, returns_read]
  refine ⟨_, s, ⟨rfl, rfl⟩, ?_⟩
  rw [hn]
  simp only [returns_ite, returns_bind, returns_map, returns_ofExcept, returns_modify, returns_pure]
  exact .inl ⟨hstate, _, _, ⟨(moved, changed), rfl, hmoved, rfl⟩, (), _, rfl, rfl, rfl⟩

theorem node_putNode (s : ClusterCatalog) (id : NodeId) (n : NodeRecord) :
    (s.putNode id n).advanceClusterMapEpoch.node id = some n := by
  rw [node_insert rfl, if_pos rfl]

/-- A recorded node can come back if and only if it is neither suspected nor taken to be unreachable. -/
theorem welcomed_iff (hn : s.node r.nodeId = some n) :
    Welcomed s n r time ↔ n.state ≠ .suspect ∧ n.state ≠ .unreachable := by
  constructor
  · rintro ⟨record, s', hret, -⟩
    have heffect := nodeEffect_registerNode hret
    cases heffect with
    | same hc => cases hc
    | report _ hc => cases hc
    | join hnone => exact absurd (hn.symm.trans hnone) nofun
    | rejoin h hback =>
      obtain rfl : n = _ := Option.some.inj (hn.symm.trans h.1)
      exact ⟨fun heq => hback (.inr (.inr heq)), fun heq => hback (.inr (.inl heq))⟩
    | comeBack h hback hmoved =>
      obtain rfl : n = _ := Option.some.inj (hn.symm.trans h.1)
      -- the table has no transition from either state to `Joining`
      refine ⟨fun heq => ?_, fun heq => ?_⟩ <;>
        simp [NodeRecord.transition, state_refresh, heq, NodeState.canTransitionTo, NodeState.isTerminal] at hmoved
  · rintro ⟨hsuspect, hunreachable⟩
    by_cases hoffline : n.state = .offline
    · have hmoved : (n.refresh r time).transition .joining (some "node restarted") time =
          .ok ({ n.refresh r time with
            state := .joining, stateChangedAt := time, stateReason := some "node restarted" }, true) := by
        simp [NodeRecord.transition, state_refresh, hoffline, NodeState.canTransitionTo, NodeState.isTerminal]
      have hret := returns_comeBack hn (.inl hoffline) hmoved
      refine ⟨_, _, hret, node_putNode _ _ _, rfl, rfl, ?_, rfl⟩
      rw [hoffline]
      rfl
    · have hback : ¬ n.state.returning := by
        rintro (h | h | h)
        · exact hoffline h
        · exact hunreachable h
        · exact hsuspect h
      refine ⟨_, _, returns_rejoin hn hback, node_putNode _ _ _, rfl, rfl, ?_, rfl⟩
      rw [state_refresh]
      cases hs : n.state <;> first | rfl | contradiction

namespace Sample

/-- A node joins and a state is set for it. -/
def joined (state : NodeState) : ClusterCatalog :=
  [ClusterCommand.initializeCluster ⟨.ofNat 1, 1, .epoch, 0, none, none⟩ .default,
    .registerNode ⟨.ofNat 1, "n1:7603", defaultStorageClass, [], ⟨100, 100, 0, 0⟩, []⟩ .epoch,
    .setNodeState (.ofNat 1) state none .epoch].foldl (fun s c => (commit (applyCommandTx c) s).2) .empty

/-- The registration of that node after a restart. -/
def again : NodeRegistration := ⟨.ofNat 1, "n1:7603", defaultStorageClass, [], ⟨100, 100, 0, 0⟩, []⟩

end Sample

theorem welcomed_iff_offline : ∃ n, (Sample.joined .offline).node (.ofNat 1) = some n ∧
    Welcomed (Sample.joined .offline) n Sample.again .epoch := by
  obtain ⟨n, hn, hoffline⟩ : ∃ n, (Sample.joined .offline).node (.ofNat 1) = some n ∧ n.state = .offline := by
    decide +kernel
  exact ⟨n, hn, (welcomed_iff hn).mpr (by rw [hoffline]; decide)⟩

/-- Failure detection suspects a node, and the node cannot register again. -/
theorem suspect_is_locked_out : ∃ n, (Sample.joined .suspect).node (.ofNat 1) = some n ∧ n.state = .suspect ∧
    Fails (applyCommandTx (.registerNode Sample.again .epoch)) (Sample.joined .suspect)
      (.topology (.invalidStateTransition .suspect .joining)) := by
  unfold Fails
  decide +kernel

end RecordStore.Cluster

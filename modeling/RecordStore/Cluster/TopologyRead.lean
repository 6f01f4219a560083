import RecordStore.Lib.Pool
import RecordStore.Cluster.Commands

/-!
# Cluster.TopologyRead — the view that placement is planned from

`topology` joins four reads: the identity, the configuration, the nodes and the epoch of the map.  Each is a
transaction of its own, they run side by side, and a command can be applied between any two of them.
-/

namespace RecordStore.Cluster

open RecordStore.Lib Tx

namespace ClusterCatalog

/-- The nodes as they are read, in the order of their identifiers. -/
def readNodes (s : ClusterCatalog) : List NodeRecord := s.nodes.rows.insertionSort ClusterTopology.nodeOrder

end ClusterCatalog

namespace TopologyRead

/-! ## One call -/

inductive Part where
  | identity
  | config
  | nodes
  | epoch
  deriving DecidableEq

/-- What the transactions of a call have returned so far. -/
structure Reads where
  identity : Option (Option ClusterIdentity)
  config : Option (Option ClusterConfig)
  nodes : Option (List NodeRecord)
  epoch : Option UInt64
  deriving DecidableEq

namespace Reads

def none : Reads := ⟨.none, .none, .none, .none⟩

/-- One of the four transactions. -/
def read (r : Reads) (s : ClusterCatalog) : Part → Reads
  | .identity => { r with identity := some s.identity }
  | .config => { r with config := some s.config }
  | .nodes => { r with nodes := some s.readNodes }
  | .epoch => { r with epoch := some (s.readCounter "cluster_map_epoch") }

/-- What the call returns once all four have ended. -/
def topology (r : Reads) : Option (Except ClusterFailure ClusterTopology) := do
  let identity ← r.identity
  let config ← r.config
  let nodes ← r.nodes
  let epoch ← r.epoch
  return match identity, config with
    | some identity, some config => .ok (.atEpoch identity.clusterId config nodes epoch)
    | _, _ => .error .notInitialized

def complete (r : Reads) : Bool := r.identity.isSome && r.config.isSome && r.nodes.isSome && r.epoch.isSome

/-- Everything read so far is what the state has. -/
structure Of (r : Reads) (s : ClusterCatalog) : Prop where
  identity : ∀ x ∈ r.identity, x = s.identity
  config : ∀ x ∈ r.config, x = s.config
  nodes : ∀ x ∈ r.nodes, x = s.readNodes
  epoch : ∀ x ∈ r.epoch, x = s.readCounter "cluster_map_epoch"

instance (r : Reads) (s : ClusterCatalog) : Decidable (r.Of s) :=
  decidable_of_iff ((∀ x ∈ r.identity, x = s.identity) ∧ (∀ x ∈ r.config, x = s.config) ∧
    (∀ x ∈ r.nodes, x = s.readNodes) ∧
    ∀ x ∈ r.epoch, x = s.readCounter "cluster_map_epoch") ⟨fun ⟨a, b, c, d⟩ => ⟨a, b, c, d⟩,
      fun ⟨a, b, c, d⟩ => ⟨a, b, c, d⟩⟩

theorem of_none (s : ClusterCatalog) : Reads.none.Of s :=
  have h : ∀ {α : Type} {P : α → Prop}, ∀ x ∈ (Option.none : Option α), P x := fun x hx =>
    absurd hx (Option.not_mem_none x)
  ⟨h, h, h, h⟩

theorem Of.read {r : Reads} {s : ClusterCatalog} (h : r.Of s) (p : Part) : (r.read s p).Of s := by
  cases p with
  | identity => exact { h with identity := fun x hx => (Option.some.inj hx).symm }
  | config => exact { h with config := fun x hx => (Option.some.inj hx).symm }
  | nodes => exact { h with nodes := fun x hx => (Option.some.inj hx).symm }
  | epoch => exact { h with epoch := fun x hx => (Option.some.inj hx).symm }

end Reads

/-- The view of one state. -/
def topologyOf (s : ClusterCatalog) : Except ClusterFailure ClusterTopology :=
  match s.identity, s.config with
  | some identity, some config =>
    .ok (.atEpoch identity.clusterId config s.readNodes (s.readCounter "cluster_map_epoch"))
  | _, _ => .error .notInitialized

/-- A call that has read one state returns the view of it. -/
theorem Reads.Of.topology {r : Reads} {s : ClusterCatalog} (h : r.Of s) {view : Except ClusterFailure ClusterTopology}
    (hview : r.topology = some view) : view = topologyOf s := by
  obtain ⟨_ | identity, _ | config, _ | nodes, _ | epoch⟩ := r <;> try cases hview
  obtain rfl := h.identity identity rfl
  obtain rfl := h.config config rfl
  obtain rfl := h.nodes nodes rfl
  obtain rfl := h.epoch epoch rfl
  rfl

theorem Reads.complete_of_topology {r : Reads} {view : Except ClusterFailure ClusterTopology}
    (hview : r.topology = some view) : r.complete = true := by
  obtain ⟨_ | identity, _ | config, _ | nodes, _ | epoch⟩ := r <;> first | rfl | cases hview

/-! ## Calls and commands -/

/-- The catalog, every state that was committed, and the calls. -/
structure World where
  catalog : ClusterCatalog
  committed : List ClusterCatalog
  calls : List Reads

inductive Event where
  | apply (c : ClusterCommand)
  | call
  | read (call : Nat) (p : Part)

namespace World

def initial : World := ⟨.empty, [.empty], []⟩

def apply (w : World) (c : ClusterCommand) : World :=
  let catalog := (commit (applyCommandTx c) w.catalog).2
  { w with catalog := catalog, committed := catalog :: w.committed }

def step (w : World) : Event → Option World
  | .apply c => some (w.apply c)
  | .call => some { w with calls := w.calls ++ [.none] }
  | .read i p =>
    w.calls[i]?.bind fun r =>
      if r.complete then none else some { w with calls := w.calls.set i (r.read w.catalog p) }

/-- No command changes what a call that has not ended has already read. -/
def Undisturbed (w : World) : Event → Prop
  | .apply c => ∀ r ∈ w.calls, r.complete = false → r.Of w.catalog → r.Of (w.apply c).catalog
  | _ => True

instance (w : World) : ∀ e, Decidable (w.Undisturbed e)
  | .apply c =>
    inferInstanceAs (Decidable (∀ r ∈ w.calls, r.complete = false → r.Of w.catalog → r.Of (w.apply c).catalog))
  | .call | .read _ _ => isTrue trivial

/-- A call under way has read the current state, and one that has ended a state that was committed. -/
structure Sound (w : World) : Prop where
  current : w.catalog ∈ w.committed
  underWay : ∀ r ∈ w.calls, r.complete = false → r.Of w.catalog
  ended : ∀ r ∈ w.calls, r.complete = true → ∃ s ∈ w.committed, r.Of s

theorem sound_initial : Sound initial :=
  ⟨List.mem_singleton_self _, fun _ h => absurd h List.not_mem_nil, fun _ h => absurd h List.not_mem_nil⟩

theorem Sound.step {w w' : World} {e : Event} (h : Sound w) (hok : w.Undisturbed e) (hs : w.step e = some w') :
    Sound w' := by
  cases e with
  | apply c =>
    cases hs
    refine ⟨List.mem_cons_self, fun r hr hopen => hok r hr hopen (h.underWay r hr hopen), fun r hr hdone => ?_⟩
    obtain ⟨s, hs, hof⟩ := h.ended r hr hdone
    exact ⟨s, List.mem_cons_of_mem _ hs, hof⟩
  | call =>
    cases hs
    refine ⟨h.current, fun r hr hopen => ?_, fun r hr hdone => ?_⟩
    · rcases List.mem_append.mp hr with hr | hr
      · exact h.underWay r hr hopen
      · rw [List.mem_singleton.mp hr]
        exact Reads.of_none _
    · rcases List.mem_append.mp hr with hr | hr
      · exact h.ended r hr hdone
      · rw [List.mem_singleton.mp hr] at hdone
        cases hdone
  | read i p =>
    obtain ⟨r, hr, hs⟩ := Option.bind_eq_some_iff.mp hs
    split_ifs at hs with hopen
    cases hs
    have hread : (r.read w.catalog p).Of w.catalog :=
      (h.underWay r (List.mem_of_getElem? hr) (Bool.eq_false_iff.mpr hopen)).read p
    refine ⟨h.current, fun r' hr' hopen' => ?_, fun r' hr' hdone => ?_⟩
    · rcases List.mem_or_eq_of_mem_set hr' with hr' | rfl
      · exact h.underWay r' hr' hopen'
      · exact hread
    · rcases List.mem_or_eq_of_mem_set hr' with hr' | rfl
      · exact h.ended r' hr' hdone
      · exact ⟨w.catalog, h.current, hread⟩

end World

/-- In every run in which no command changes what a call under way has read, every view that a call returns is
the view of one state that was committed. -/
theorem topology_is_snapshot (events : List Event) (w : World)
    (hok : Meets World.step World.Undisturbed .initial events) (hrun : run World.step .initial events = some w) :
    ∀ r ∈ w.calls, ∀ view, r.topology = some view → ∃ s ∈ w.committed, view = topologyOf s := by
  have hsound := run_invariant (fun _ _ _ h hok hs => h.step hok hs) events World.sound_initial hok hrun
  intro r hr view hview
  obtain ⟨s, hs, hof⟩ := hsound.ended r hr (Reads.complete_of_topology hview)
  exact ⟨s, hs, hof.topology hview⟩

namespace Sample

def founding : Event := .apply (.initializeCluster ⟨.ofNat 1, 1, .epoch, 0, none, none⟩ .default)

def joining : Event :=
  .apply (.registerNode ⟨.ofNat 1, "n1:7603", defaultStorageClass, [], ⟨100, 100, 0, 0⟩, []⟩ .epoch)

/-- A node has joined before the call. -/
def early : List Event := [founding, joining, .call, .read 0 .identity, .read 0 .config, .read 0 .epoch, .read 0 .nodes]

/-- A node joins between the two. -/
def between : List Event := [founding, .call, .read 0 .identity, .read 0 .config, .read 0 .nodes, joining,
    .read 0 .epoch]

end Sample

theorem topology_is_snapshot_early : ∃ w r view, run World.step .initial Sample.early = some w ∧ w.calls[0]? = some r ∧
    r.topology = some view ∧ ∃ s ∈ w.committed, view = topologyOf s := by
  obtain ⟨w, hrun, r, hr, view, hview, -⟩ : ∃ w, run World.step .initial Sample.early = some w ∧
      ∃ r, w.calls[0]? = some r ∧ ∃ view, r.topology = some view ∧ True := by decide +kernel
  exact ⟨w, r, view, hrun, hr, hview,
    topology_is_snapshot Sample.early w (by decide +kernel) hrun r (List.mem_of_getElem? hr) view hview⟩

/-- The view has no node and carries the epoch of the map with one. -/
theorem torn_view : ∃ w, run World.step .initial Sample.between = some w ∧
    (∃ r, w.calls[0]? = some r ∧ ∃ answer, r.topology = some answer ∧ ∃ view, answer = .ok view ∧
      view.nodes.length = 0 ∧ view.epoch = 2) ∧
    ∀ s ∈ w.committed, ¬ ∃ view, topologyOf s = .ok view ∧ view.epoch = 2 ∧ view.nodes.length ≠ 1 := by
  decide +kernel

end TopologyRead

end RecordStore.Cluster

import RecordStore.Cluster.Topology

/-!
# Cluster.Durability — how many replicas of a payload count

`PayloadPlacement::durability` (`replica.rs`).  Five counters over the replicas of a placement, each a
saturating `u32`.  A replica counts as healthy by the state of its record and by the state of its node and
device together.
-/

namespace RecordStore.Cluster

open RecordStore.Core

/-! ## Counting -/

/-- `saturating_add(1)` for every element with a property. -/
def count32 {α : Type} (p : α → Bool) (l : List α) : UInt32 :=
  l.foldl (fun n a => if p a then (if n = 0xffffffff then n else n + 1) else n) 0

theorem count32_toNat {α : Type} (p : α → Bool) (l : List α) :
    (count32 p l).toNat = min (l.countP p) (2 ^ 32 - 1) := by
  suffices h : ∀ n : UInt32, (l.foldl (fun n a => if p a then (if n = 0xffffffff then n else n + 1) else n) n).toNat =
      min (n.toNat + l.countP p) (2 ^ 32 - 1) by
    rw [count32, h 0]
    simp
  induction l with
  | nil =>
    intro n
    have hn : n.toNat < 2 ^ 32 := n.toNat_lt
    rw [List.foldl_nil, List.countP_nil]
    omega
  | cons a l ih =>
    intro n
    have hn : n.toNat < 2 ^ 32 := n.toNat_lt
    rw [List.foldl_cons, ih, List.countP_cons]
    by_cases hp : p a
    · rw [if_pos hp, if_pos hp]
      by_cases hmax : n = 0xffffffff
      · have htop : n.toNat = 2 ^ 32 - 1 := by rw [hmax]; rfl
        rw [if_pos hmax]
        omega
      · have hlt : n.toNat ≠ 2 ^ 32 - 1 := fun h => hmax (UInt32.toNat_inj.mp h)
        rw [if_neg hmax, UInt32.toNat_add, UInt32.toNat_one, Nat.mod_eq_of_lt (by omega)]
        omega
    · rw [if_neg hp, if_neg hp]
      omega

/-! ## Durability of a placement -/

namespace ReplicaState

/-- Whether this replica may be served to a client. -/
def readable : ReplicaState → Bool
  | healthy => true
  | _ => false

/-- Whether this replica counts towards durability. -/
def durable : ReplicaState → Bool
  | healthy => true
  | _ => false

/-- Whether the replica is known to need repair. -/
def needsRepair : ReplicaState → Bool
  | missing | corrupt | stale => true
  | _ => false

end ReplicaState

/-- Separate desired, current, and healthy replica accounting. -/
structure Durability where
  desired : UInt32
  current : UInt32
  healthy : UInt32
  readable : UInt32
  unavailable : UInt32
  damaged : UInt32

namespace Durability

/-- Whether the payload has fewer healthy replicas than desired. -/
def underReplicated (d : Durability) : Bool := d.healthy < d.desired

/-- Whether no healthy replica remains. -/
def isUnavailable (d : Durability) : Bool := d.healthy = 0

end Durability

/-- A replica that is durable on a target that still counts. -/
def Replica.usable (t : ClusterTopology) (r : Replica) : Bool := r.state.durable && t.deviceContributesDurability r.slot

/-- A replica that can be streamed to a client right now. -/
def Replica.servable (t : ClusterTopology) (r : Replica) : Bool :=
  r.state.readable && t.servesReads r.nodeId && (t.device r.deviceId).any fun x => x.2.health.contributesDurability

namespace PayloadPlacement

/-- Durability accounting against a topology view. -/
def durability (p : PayloadPlacement) (t : ClusterTopology) : Durability where
  desired := p.desiredReplicas.toUInt32
  current := count32 (fun _ => true) p.replicas
  healthy := count32 (Replica.usable t) p.replicas
  readable := count32 (Replica.servable t) p.replicas
  unavailable := count32 (fun r => !t.deviceContributesDurability r.slot) p.replicas
  damaged := count32 (fun r => t.deviceContributesDurability r.slot && r.state.needsRepair) p.replicas

/-- How many replicas are usable. -/
def usableCount (p : PayloadPlacement) (t : ClusterTopology) : Nat := p.replicas.countP (Replica.usable t)

/-- The replica stored on a node: the first of them. -/
def replica (p : PayloadPlacement) (node : NodeId) : Option Replica := p.replicas.find? (·.nodeId = node)

variable {p : PayloadPlacement} {t : ClusterTopology}

theorem healthy_toNat : (p.durability t).healthy.toNat = min (p.usableCount t) (2 ^ 32 - 1) :=
  count32_toNat _ _

theorem desired_toNat : (p.durability t).desired.toNat = p.desiredReplicas.toNat := by
  show p.desiredReplicas.toUInt32.toNat = _
  exact UInt8.toNat_toUInt32 _

end PayloadPlacement

end RecordStore.Cluster

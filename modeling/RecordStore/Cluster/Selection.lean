import RecordStore.Cluster.Records

/-!
# Cluster.Selection — choosing the devices of a payload

`CapacityAwarePlacement::place`.  A first pass over the candidates, in the order of their scores, takes one
device of every failure domain that holds none yet; a second one fills up from the rest.  The score of a
candidate (a logarithm of a hash of the payload, the class, the node and the device, weighed by the device's capacity,
compared by `total_cmp`) is a parameter.
-/

namespace RecordStore.Cluster

open RecordStore.Core

/-! ## Requests and plans -/

/-- What an operation needs placed. -/
structure ObjectPlacementRequest where
  objectId : ObjectId
  sizeHint : Option UInt64
  desiredReplicas : UInt8
  requiredAcknowledgements : UInt8
  storageClass : StorageClass
  existingNodes : List NodeId
  excludedNodes : List NodeId
  existingTargets : List Slot
  excludedDevices : List DeviceId
  policy : Option StoragePolicy

namespace ObjectPlacementRequest

/-- A request for a brand new payload. -/
def new (objectId : ObjectId) (desiredReplicas requiredAcknowledgements : UInt8) (storageClass : StorageClass) :
    ObjectPlacementRequest where
  objectId := objectId
  sizeHint := none
  desiredReplicas := desiredReplicas
  requiredAcknowledgements := requiredAcknowledgements
  storageClass := storageClass
  existingNodes := []
  excludedNodes := []
  existingTargets := []
  excludedDevices := []
  policy := none

end ObjectPlacementRequest

/-- One selected placement target. -/
structure PlacementTarget where
  nodeId : NodeId
  deviceId : DeviceId
  rpcAddress : String
  domain : String
  isLocal : Bool
  deriving DecidableEq

def PlacementTarget.slot (x : PlacementTarget) : Slot := (x.nodeId, x.deviceId)

/-- A complete placement decision. -/
structure PlacementPlan where
  epoch : UInt64
  targets : List PlacementTarget
  requiredAcknowledgements : UInt8
  desiredReplicas : UInt8
  failureDomainsReused : Bool
  deriving DecidableEq

/-- Reasons placement cannot produce a usable plan. -/
inductive PlacementError where
  | invalidRequest (reason : String)
  | noEligibleDevices (storageClass : StorageClass) (healthy classMatches withCapacity : Nat)
  | insufficientDurability (required : UInt8) (eligible : Nat)
  | insufficientFailureDomains (scope : FailureDomainScope) (required : UInt8) (available : Nat)
  deriving DecidableEq

/-! ## Candidates -/

/-- A device in the race, with the score it runs under. -/
structure Candidate where
  nodeId : NodeId
  deviceId : DeviceId
  rpcAddress : String
  domain : String
  score : Nat
  deriving DecidableEq

namespace Candidate

/-- The order candidates are tried in: by score, then node, then device. -/
def order (a b : Candidate) : Prop :=
  a.score < b.score ∨ a.score = b.score ∧
    ((compare a.nodeId.bytes b.nodeId.bytes).then (compare a.deviceId.bytes b.deviceId.bytes)).isLE

instance : DecidableRel order := fun _ _ => inferInstanceAs (Decidable (_ ∨ _))

def intoTarget (localNode : Option NodeId) (c : Candidate) : PlacementTarget where
  nodeId := c.nodeId
  deviceId := c.deviceId
  rpcAddress := c.rpcAddress
  domain := c.domain
  isLocal := decide (localNode = some c.nodeId)

end Candidate

def placementDomain (n : NodeRecord) (device : DeviceId) (scope : FailureDomainScope) : String :=
  if scope = .device then "device:" ++ device.uuid.toText else n.domainKey scope

namespace ObjectPlacementRequest

variable (r : ObjectPlacementRequest) (t : ClusterTopology)

def scope : FailureDomainScope := (r.policy.map (·.failureDomain)).getD t.config.failureDomainScope

def strict : Bool := (r.policy.map (·.strictFailureDomains)).getD t.config.strictFailureDomains

/-- The class label always has to match; a policy narrows further by device kind. -/
def eligibleClass (d : DeviceRecord) : Bool :=
  match r.policy with
  | some policy => policy.acceptsDevice d
  | none => decide (d.storageClass = r.storageClass)

def reservation : UInt64 := r.sizeHint.getD t.config.unknownUploadSizeReservationBytes

/-- What is held back on a device: the cluster's margin and the policy's reserve. -/
def reserve (d : DeviceRecord) : UInt64 :=
  saturatingAdd t.config.capacitySafetyMarginBytes
    ((r.policy.map fun policy => policy.reservedBytes d.capacity.usableBytes).getD 0)

/-- Whether the device has room, under the watermarks and the reserve. -/
def hasRoom (d : DeviceRecord) : Bool :=
  let level := t.config.watermarks.level (d.capacity.utilizationPermille / 10)
  decide (level ≠ .critical) && level.acceptsNewReplicas && d.eligibleForPlacement (r.reservation t) (r.reserve t d)

/-- Whether the request rules the device out, or the payload is there already. -/
def bars (x : Slot) : Bool :=
  decide (x.1 ∈ r.excludedNodes) || decide (x.1 ∈ r.existingNodes) || decide (x.2 ∈ r.excludedDevices) ||
    decide (x ∈ r.existingTargets)

/-- The devices the loop over the topology counts as `class_matches`, in its order. -/
def classMatches : List (NodeRecord × DeviceRecord) :=
  (t.nodes.filter (·.state.acceptsNewReplicas)).flatMap fun n =>
    (n.devices.filter fun d => r.eligibleClass d && d.state.acceptsNewPlacements).map fun d => (n, d)

def withCapacity : List (NodeRecord × DeviceRecord) := (r.classMatches t).filter fun x => r.hasRoom t x.2

/-- What remains after the exclusions. -/
def eligible : List (NodeRecord × DeviceRecord) := (r.withCapacity t).filter fun x => !r.bars (x.1.nodeId, x.2.id)

/-- The domains that already hold a replica. -/
def occupied : List String :=
  (r.existingTargets.filterMap (fun x => (t.node x.1).map fun n => placementDomain n x.2 (r.scope t)) ++
    r.existingNodes.filterMap fun id => (t.node id).map fun n => n.domainKey (r.scope t)).dedup

def existingCount : Nat := max r.existingTargets.length r.existingNodes.length

/-- The replicas that are still to be placed. -/
def wanted : Nat := r.desiredReplicas.toNat - r.existingCount

end ObjectPlacementRequest

/-! ## The two passes -/

/-- The first pass keeps one replica per failure domain; the domains are returned with it. -/
def spread (wanted : Nat) : List Candidate → List String → List Candidate → List Candidate × List String
  | [], occupied, targets => (targets, occupied)
  | c :: rest, occupied, targets =>
    if wanted ≤ targets.length then (targets, occupied)
    else if c.domain ∈ occupied then spread wanted rest occupied targets
    else spread wanted rest (c.domain :: occupied) (targets ++ [c])

/-- The second pass reuses domains.  What it takes itself is not added to `selected`. -/
def fill (wanted : Nat) (selected : List DeviceId) : List Candidate → List Candidate → List Candidate
  | [], targets => targets
  | c :: rest, targets =>
    if wanted ≤ targets.length then targets
    else if c.deviceId ∈ selected then fill wanted selected rest targets
    else fill wanted selected rest (targets ++ [c])

/-- The ingress node's own device comes first, when it was chosen. -/
def localFirst (localNode : Option NodeId) (targets : List PlacementTarget) : List PlacementTarget :=
  match localNode.bind fun id => targets.findIdx? (·.nodeId = id) with
  | some i => (targets.drop i).take 1 ++ targets.take i ++ targets.drop (i + 1)
  | none => targets

/-- What the race between devices is decided by; lower scores win. -/
abbrev Score := ObjectId → StorageClass → NodeId → DeviceRecord → Nat

section Place

variable (score : Score) (localNode : Option NodeId)
  (r : ObjectPlacementRequest) (t : ClusterTopology)

def candidate (n : NodeRecord) (d : DeviceRecord) : Candidate where
  nodeId := n.nodeId
  deviceId := d.id
  rpcAddress := n.rpcAddress
  domain := placementDomain n d.id (r.scope t)
  score := score r.objectId r.storageClass n.nodeId d

/-- The candidates in the order they are tried. -/
def candidates : List Candidate :=
  ((r.eligible t).map fun x => candidate score r t x.1 x.2).insertionSort Candidate.order

/-- What the first pass takes. -/
def firstPass : List Candidate × List String := spread r.wanted (candidates score r t) (r.occupied t) []

/-- What both passes take. -/
def chosen : List Candidate :=
  let first := (firstPass score r t).1
  if first.length < r.wanted then fill r.wanted (first.map (·.deviceId)) (candidates score r t) first else first

/-- Selects replica targets for one payload. -/
def place : Except PlacementError PlacementPlan :=
  if r.desiredReplicas = 0 then .error (.invalidRequest "desired replica count must be at least one")
  else if r.requiredAcknowledgements = 0 ∨ r.requiredAcknowledgements > r.desiredReplicas then
    .error (.invalidRequest "required acknowledgements must be between one and the desired replica count")
  else if (candidates score r t).isEmpty then
    .error (.noEligibleDevices r.storageClass (t.nodes.countP (·.state.acceptsNewReplicas)) (r.classMatches t).length
      (r.withCapacity t).length)
  else if (firstPass score r t).1.length < r.wanted ∧ r.strict t = true then
    .error (.insufficientFailureDomains (r.scope t) r.desiredReplicas
      (((candidates score r t).map (·.domain)).dedup.length + (firstPass score r t).2.length))
  else if (chosen score r t).length + r.existingCount < r.requiredAcknowledgements.toNat then
    .error (.insufficientDurability r.requiredAcknowledgements ((chosen score r t).length + r.existingCount))
  else
    .ok ⟨t.epoch, localFirst localNode ((chosen score r t).map (Candidate.intoTarget localNode)),
      r.requiredAcknowledgements, r.desiredReplicas,
      decide ((firstPass score r t).1.length < (chosen score r t).length)⟩

end Place

section Plan

variable {score : Score} {localNode : Option NodeId}
  {r : ObjectPlacementRequest} {t : ClusterTopology} {plan : PlacementPlan}

/-- A plan carries the counts of its request and the epoch of its topology. -/
theorem place_ok (h : place score localNode r t = .ok plan) :
    plan.desiredReplicas = r.desiredReplicas ∧ plan.requiredAcknowledgements = r.requiredAcknowledgements ∧
      plan.epoch = t.epoch ∧
      plan.targets = localFirst localNode ((chosen score r t).map (Candidate.intoTarget localNode)) := by
  unfold place at h
  split_ifs at h
  obtain rfl := Except.ok.inj h
  exact ⟨rfl, rfl, rfl, rfl⟩

end Plan

end RecordStore.Cluster

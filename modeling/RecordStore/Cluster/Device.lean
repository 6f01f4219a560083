import RecordStore.Cluster.Placement

/-!
# Cluster.Device — storage devices of a node

`device.rs`.  A device has an administrative state, which only moves along the transition table, and an
observed health.  Placement and durability each ask both: one for whether new data may go there, the
other for whether the data that is there counts.
-/

namespace RecordStore.Cluster

open RecordStore.Core

/-- Physical storage technology. -/
inductive DeviceKind where
  | nvme
  | sataSsd
  | sasSsd
  | sataHdd
  | sasHdd
  | ssd
  | hdd
  | blockDevice
  | raidLogicalVolume
  | cloudBlockVolume
  | filesystemDirectory
  | unknown
  deriving DecidableEq

/-- Administrator-configured contribution to placement; `1000` is neutral. -/
structure PlacementWeight where
  get : UInt32
  range : get ≠ 0 ∧ get ≤ 10000
  deriving DecidableEq

/-- The neutral weight. -/
def PlacementWeight.default : PlacementWeight := ⟨1000, by decide⟩

/-- Capacity accounting for one device. -/
structure DeviceCapacity where
  rawBytes : UInt64
  usableBytes : UInt64
  allocatedBytes : UInt64
  reservedBytes : UInt64
  availableBytes : UInt64
  deriving DecidableEq

/-- Best available device-health observation. -/
inductive DeviceHealth where
  | unknown
  | healthy
  | degraded
  | failed
  | unavailable
  | unsupported
  deriving DecidableEq

namespace DeviceHealth

def permitsPlacement : DeviceHealth → Bool
  | unknown | healthy | unsupported => true
  | _ => false

def contributesDurability : DeviceHealth → Bool
  | failed | unavailable => false
  | _ => true

end DeviceHealth

/-- Durable administrative lifecycle of a registered device. -/
inductive DeviceState where
  | discovered
  | available
  | active
  | degraded
  | draining
  | maintenance
  | failed
  | safeToRemove
  | retired
  deriving DecidableEq

namespace DeviceState

def toText : DeviceState → String
  | discovered => "discovered"
  | available => "available"
  | active => "active"
  | degraded => "degraded"
  | draining => "draining"
  | maintenance => "maintenance"
  | failed => "failed"
  | safeToRemove => "safe_to_remove"
  | retired => "retired"

/-- Whether the device may receive new data. -/
def acceptsNewPlacements : DeviceState → Bool
  | active => true
  | _ => false

/-- Whether existing data may count toward durability. -/
def contributesDurability : DeviceState → Bool
  | active | degraded | draining | maintenance => true
  | _ => false

/-- The transition table. -/
def canTransitionTo (state next : DeviceState) : Bool :=
  if state = next then true
  else
    match state, next with
    | discovered, available | discovered, retired => true
    | available, active | available, maintenance | available, retired => true
    | active, degraded | active, draining | active, maintenance | active, failed => true
    | degraded, active | degraded, draining | degraded, maintenance | degraded, failed => true
    | draining, active | draining, maintenance | draining, failed | draining, safeToRemove => true
    | maintenance, available | maintenance, active | maintenance, draining | maintenance, failed
    | maintenance, retired => true
    | failed, draining | failed, safeToRemove | failed, retired => true
    | safeToRemove, active | safeToRemove, retired => true
    | _, _ => false

end DeviceState

/-- Failures raised while validating or changing a device inventory. -/
inductive DeviceError where
  | invalidCapacity (reason : String)
  | wrongNode (device : DeviceId) (expected actual : NodeId)
  | invalidStateTransition (current requested : DeviceState)
  deriving DecidableEq

/-- `Display`. -/
def DeviceError.toText : DeviceError → String
  | invalidCapacity reason => "invalid device capacity: " ++ reason
  | wrongNode device expected actual =>
    "device " ++ device.uuid.toText ++ " belongs to node " ++ actual.uuid.toText ++ ", not inventory owner " ++
      expected.uuid.toText
  | invalidStateTransition current requested =>
    "device state transition from " ++ current.toText ++ " to " ++ requested.toText ++ " is not allowed"

namespace DeviceCapacity

/-- Validates the accounting relationships. -/
def validate (c : DeviceCapacity) : Except DeviceError Unit :=
  if c.usableBytes > c.rawBytes then .error (.invalidCapacity "usable capacity exceeds raw capacity")
  else if c.availableBytes > c.usableBytes then .error (.invalidCapacity "available capacity exceeds usable capacity")
  else if c.reservedBytes > c.rawBytes then .error (.invalidCapacity "reserved capacity exceeds raw capacity")
  else .ok ()

/-- `usable_bytes.saturating_sub(available_bytes)`. -/
def usedBytes (c : DeviceCapacity) : Nat := c.usableBytes.toNat - c.availableBytes.toNat

/-- Utilization in parts per thousand. -/
def utilizationPermille (c : DeviceCapacity) : Nat :=
  if c.usableBytes = 0 then 1000 else min (c.usedBytes * 1000 / c.usableBytes.toNat) 1000

end DeviceCapacity

/-- The class of what chose none. -/
def defaultStorageClass : StorageClass := ⟨"standard", by decide⟩

/-- One explicitly registered, independently managed placement resource. -/
structure DeviceRecord where
  id : DeviceId
  nodeId : NodeId
  kind : DeviceKind
  storageClass : StorageClass
  capacity : DeviceCapacity
  configuredWeight : PlacementWeight
  health : DeviceHealth
  state : DeviceState
  deriving DecidableEq

namespace DeviceRecord

/-- The compatibility device representing a node's original data root. -/
def legacyDirectory (node : NodeId) (storageClass : StorageClass) (capacity : DeviceCapacity) : DeviceRecord where
  id := legacyId node
  nodeId := node
  kind := .filesystemDirectory
  storageClass := storageClass
  capacity := capacity
  configuredWeight := .default
  health := .unknown
  state := .active

/-- Whether normal placement may select this device. -/
def eligibleForPlacement (d : DeviceRecord) (reservationBytes marginBytes : UInt64) : Bool :=
  d.state.acceptsNewPlacements && d.health.permitsPlacement && decide (d.capacity.usableBytes > 0) &&
    decide (d.capacity.availableBytes ≥ saturatingAdd reservationBytes marginBytes)

/-- A validated lifecycle transition; the flag says whether the state changed. -/
def transition (d : DeviceRecord) (next : DeviceState) : Except DeviceError (DeviceRecord × Bool) :=
  if d.state = next then .ok (d, false)
  else if d.state.canTransitionTo next then .ok ({ d with state := next }, true)
  else .error (.invalidStateTransition d.state next)

end DeviceRecord

end RecordStore.Cluster

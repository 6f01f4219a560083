import RecordStore.Cluster.Removal

/-!
# Cluster.DeviceLifecycle — the administrative state of a device over the log

`SetDeviceState` moves a device along its table, and `RegisterDevice` keeps the state that is recorded.  A
node that registers again replaces its whole device list by the one it brings: a device it leaves out is
gone, and one it brings has the state the node declares.
-/

namespace RecordStore.Cluster

open RecordStore.Lib RecordStore.Core Tx ClusterCatalog

/-! ## Looking up a device -/

section Lists

variable {l : List DeviceRecord} {x : DeviceId}

/-- Sorting by identifier is stable, so it does not change which device is found. -/
theorem find?_orderedInsert (d : DeviceRecord) (l : List DeviceRecord) :
    (l.orderedInsert deviceOrder d).find? (·.id = x) = (d :: l).find? (·.id = x) := by
  induction l with
  | nil => rfl
  | cons b l ih =>
    rw [List.orderedInsert_cons]
    split_ifs with hle
    · rfl
    · -- the device goes behind `b`, so `b` has another identifier
      have hne : d.id ≠ b.id := by
        intro e
        apply hle
        rw [deviceOrder, e]
        exact Std.ReflCmp.isLE_rfl
      rw [List.find?_cons, ih, List.find?_cons, List.find?_cons, List.find?_cons]
      by_cases hb : b.id = x
      · have hd : d.id ≠ x := fun e => hne (e.trans hb.symm)
        simp [hb, hd]
      · simp [hb]

theorem find?_insertionSort (l : List DeviceRecord) :
    (l.insertionSort deviceOrder).find? (·.id = x) = l.find? (·.id = x) := by
  induction l with
  | nil => rfl
  | cons d l ih =>
    rw [List.insertionSort_cons, find?_orderedInsert, List.find?_cons, List.find?_cons, ih]

/-- The first device with the identifier is replaced. -/
theorem find?_replaceF {m : DeviceRecord} (l : List DeviceRecord) :
    (l.replaceF fun y => if y.id = m.id then some m else none).find? (·.id = x) =
      if x = m.id then (l.find? (·.id = x)).map fun _ => m else l.find? (·.id = x) := by
  induction l with
  | nil => simp
  | cons b l ih =>
    rw [List.replaceF]
    by_cases hb : b.id = m.id
    · simp only [List.find?_cons, hb]
      by_cases hx : x = m.id
      · simp [hx]
      · simp [hx, Ne.symm hx]
    · simp only [if_neg hb, List.find?_cons, ih]
      by_cases hx : x = m.id
      · subst hx
        simp [hb]
      · simp only [if_neg hx]

theorem find?_upsertDevice {d : DeviceRecord} :
    (upsertDevice l d).find? (·.id = x) = if x = d.id then some d else l.find? (·.id = x) := by
  unfold upsertDevice
  rw [find?_insertionSort]
  split_ifs with hany hx hx
  · subst hx
    obtain ⟨b, hb, hid⟩ := List.any_eq_true.mp hany
    have hsome : (l.find? (·.id = d.id)).isSome = true := List.find?_isSome.mpr ⟨b, hb, hid⟩
    obtain ⟨b', hb'⟩ := Option.isSome_iff_exists.mp hsome
    rw [find?_replaceF, if_pos rfl, hb']
    rfl
  · rw [find?_replaceF, if_neg hx]
  · subst hx
    rw [List.find?_append]
    have hnone : l.find? (·.id = d.id) = none := by
      refine List.find?_eq_none.mpr fun b hb hid => hany ?_
      exact List.any_eq_true.mpr ⟨b, hb, hid⟩
    simp [hnone]
  · rw [List.find?_append]
    simp [Ne.symm hx]

end Lists

/-! ## The state of a device -/

/-- A device of a node that stays registered is still there, in the same state or in the one an allowed
`SetDeviceState` gave it. -/
def DeviceKept (c : ClusterCommand) (s s' : ClusterCatalog) (node : NodeId) (device : DeviceId) : Prop :=
  ∀ n d n', s.node node = some n → n.device device = some d → s'.node node = some n' →
    ∃ d', n'.device device = some d' ∧
      (d'.state = d.state ∨ ∃ state time, c = .setDeviceState node device state time ∧
        d.state.canTransitionTo state = true ∧ d'.state = state)

/-- A node that registers again, and is not refused, brings every device it has, in the state that is recorded. -/
def CarriesDevices (s : ClusterCatalog) : ClusterCommand → Prop
  | .registerNode r _ => ∀ n, s.node r.nodeId = some n → r.devices ≠ [] → n.state ≠ .suspect → n.state ≠ .unreachable →
      ∀ device d, n.device device = some d → ∃ d', r.devices.find? (·.id = device) = some d' ∧ d'.state = d.state
  | _ => True

section Kept

variable {s s' : ClusterCatalog} {c : ClusterCommand} {node : NodeId} {device : DeviceId}

theorem deviceKept_of_node (h : s'.node node = s.node node) : DeviceKept c s s' node device := by
  intro n d n' hn hd hn'
  obtain rfl : n = n' := Option.some.inj (hn.symm.trans (h.symm.trans hn'))
  exact ⟨d, hd, .inl rfl⟩

/-- Only the node whose record is written has to be looked at. -/
theorem deviceKept_of_rewrites {id : NodeId} {n n' : NodeRecord} (h : Rewrites s id n n' s')
    (hdevices : ∀ d, n.device device = some d → ∃ d', n'.device device = some d' ∧
      (d'.state = d.state ∨ ∃ state time, c = .setDeviceState id device state time ∧
        d.state.canTransitionTo state = true ∧ d'.state = state)) : DeviceKept c s s' node device := by
  by_cases hid : node = id
  · subst hid
    intro n₀ d n₀' hn hd hn'
    obtain rfl : n = n₀ := Option.some.inj (h.1.symm.trans hn)
    rw [node_insert h.2, if_pos rfl] at hn'
    obtain rfl := Option.some.inj hn'
    exact hdevices d hd
  · refine deviceKept_of_node ?_
    rw [node_insert h.2, if_neg hid]

theorem deviceKept_of_devices {id : NodeId} {n n' : NodeRecord} (h : Rewrites s id n n' s')
    (hd : n'.devices = n.devices) : DeviceKept c s s' node device :=
  deviceKept_of_rewrites h fun d hd' => ⟨d, by rwa [NodeRecord.device, hd], .inl rfl⟩

theorem device_refresh {n : NodeRecord} {r : NodeRegistration} (time : DateTime) :
    (n.refresh r time).device device = if r.devices = [] then n.device device else r.devices.find? (·.id = device) := by
  unfold NodeRecord.refresh NodeRecord.device
  dsimp only
  by_cases h : r.devices = []
  · simp [h]
  · simp [h]

theorem allowed_transition {d : DeviceRecord} {next : DeviceState} {r : DeviceRecord × Bool}
    (h : d.transition next = .ok r) : d.state.canTransitionTo next = true := by
  unfold DeviceRecord.transition at h
  split_ifs at h with hsame hallowed
  · rw [hsame]
    cases next <;> rfl
  · exact hallowed

theorem transition_joining {n moved : NodeRecord} {reason : Option String} {time : DateTime} {changed : Bool}
    (hstate : n.state.returning) (h : n.transition .joining reason time = .ok (moved, changed)) :
    n.state = .offline := by
  rcases hstate with hs | hs | hs
  · exact hs
  · rw [NodeRecord.transition, hs] at h
    cases h
  · rw [NodeRecord.transition, hs] at h
    cases h

/-- A registration that is not refused leaves the devices it brings. -/
theorem returns_registerNode {r : NodeRegistration} (time : DateTime) {n : NodeRecord} (hn : s.node r.nodeId = some n)
    (hsuspect : n.state ≠ .suspect) (hunreachable : n.state ≠ .unreachable) :
    ∃ o s' n', Returns (applyCommandTx (.registerNode r time)) s o s' ∧ s'.node r.nodeId = some n' ∧
      n'.devices = (n.refresh r time).devices := by
  simp only [applyCommandTx, registerNode, returns_bind, returns_read]
  by_cases hoff : n.state = .offline
  · obtain ⟨moved, changed, hmoved⟩ : ∃ moved changed,
        (n.refresh r time).transition .joining (some "node restarted") time = .ok (moved, changed) := by
      have hstate : (n.refresh r time).state = .offline := hoff
      rw [NodeRecord.transition, hstate]
      exact ⟨_, _, rfl⟩
    refine ⟨.registration moved moved.raftId false, (putNode r.nodeId moved s).advanceClusterMapEpoch, moved,
      ⟨some n, s, ⟨hn.symm, rfl⟩, ?_⟩, ?_, devices_transition hmoved⟩
    · simp only [returns_ite, returns_bind, returns_map, returns_ofExcept, returns_modify, returns_pure]
      exact .inl ⟨.inl hoff, moved, s, ⟨(moved, changed), rfl, hmoved, rfl⟩, (), _, rfl, rfl, rfl⟩
    · exact (node_insert rfl).trans (if_pos rfl)
  · refine ⟨.registration (n.refresh r time) n.raftId false,
      (putNode r.nodeId (n.refresh r time) s).advanceClusterMapEpoch, n.refresh r time,
      ⟨some n, s, ⟨hn.symm, rfl⟩, ?_⟩, ?_, rfl⟩
    · simp only [returns_ite, returns_bind, returns_map, returns_ofExcept, returns_modify, returns_pure]
      refine .inr ⟨?_, n.refresh r time, s, ⟨rfl, rfl⟩, (), _, rfl, rfl, rfl⟩
      rintro (hs | hs | hs)
      · exact hoff hs
      · exact hunreachable hs
      · exact hsuspect hs
    · exact (node_insert rfl).trans (if_pos rfl)

end Kept

/-- Every device keeps its state unless an allowed `SetDeviceState` changes it, and none disappears, exactly if a node
that registers again brings its devices as they are recorded. -/
theorem deviceKept_iff_carriesDevices (s : ClusterCatalog) (c : ClusterCommand) :
    (∀ node device, DeviceKept c s (s.next c) node device) ↔ CarriesDevices s c := by
  constructor
  · intro h
    cases c with
    | registerNode r time =>
      intro n hn hne hsuspect hunreachable device d hd
      obtain ⟨o, s', n', hret, hn', hdevices⟩ := returns_registerNode (r := r) time hn hsuspect hunreachable
      have hkept := h r.nodeId device
      rw [ClusterCatalog.next, commit_of_returns hret] at hkept
      obtain ⟨d', hd', hstate⟩ := hkept n d n' hn hd hn'
      rw [NodeRecord.device, hdevices] at hd'
      have hfound := (device_refresh time).symm.trans hd'
      rw [if_neg hne] at hfound
      rcases hstate with hstate | ⟨_, _, hc, -⟩
      · exact ⟨d', hfound, hstate⟩
      · cases hc
    | _ => trivial
  · intro h node device
    refine commit_preserves (P := fun s' => DeviceKept c s s' node device) (deviceKept_of_node rfl) fun o s' hret => ?_
    cases nodeEffect_of_returns hret with
    | same hc hs => exact deviceKept_of_node (node_congr hs)
    | join hn hs =>
      intro n d n' hn₀ hd hn'
      rw [node_insert hs] at hn'
      split_ifs at hn' with hnode
      · rw [hnode, hn] at hn₀
        cases hn₀
      · obtain rfl : n = n' := Option.some.inj (hn₀.symm.trans hn')
        exact ⟨d, hd, .inl rfl⟩
    | @rejoin r time n _ hs hstate =>
      refine deviceKept_of_rewrites hs fun d hd => ?_
      rw [device_refresh]
      split_ifs with hne
      · exact ⟨d, hd, .inl rfl⟩
      · obtain ⟨d', hd', hsame⟩ :=
          h n hs.1 hne (fun e => hstate (.inr (.inr e))) (fun e => hstate (.inr (.inl e))) device d hd
        exact ⟨d', hd', .inl hsame⟩
    | @comeBack r time n moved changed _ hs hstate hmoved =>
      have hoff := transition_joining (n := n.refresh r time) hstate hmoved
      refine deviceKept_of_rewrites hs fun d hd => ?_
      rw [NodeRecord.device, devices_transition hmoved]
      change ∃ d', (n.refresh r time).device device = _ ∧ _
      rw [device_refresh]
      split_ifs with hne
      · exact ⟨d, hd, .inl rfl⟩
      · have hoff : n.state = .offline := hoff
        obtain ⟨d', hd', hsame⟩ := h n hs.1 hne (by simp [hoff]) (by simp [hoff]) device d hd
        exact ⟨d', hd', .inl hsame⟩
    | report hs hc hid hstate hdevices => exact deviceKept_of_devices hs hdevices
    | setState hmoved hs =>
      refine deviceKept_of_devices hs ?_
      split_ifs
      · exact devices_transition hmoved
      · exact devices_transition hmoved
    | @registerDevice id dev recorded time n _ hrecorded hs =>
      refine deviceKept_of_rewrites hs fun d hd => ?_
      have hlegacy : n.ensureLegacyDevice = n := by
        unfold NodeRecord.ensureLegacyDevice
        rw [if_neg]
        intro hempty
        rw [NodeRecord.device, List.isEmpty_iff.mp hempty] at hd
        cases hd
      rw [NodeRecord.device, find?_upsertDevice, hlegacy]
      rw [hlegacy] at hrecorded
      split_ifs with hid
      · refine ⟨recorded, rfl, .inl ?_⟩
        have hid' : device = dev.id := by rw [hid, hrecorded]
        rw [hrecorded, ← hid', hd]
        rfl
      · exact ⟨d, hd, .inl rfl⟩
    | @setDeviceState id deviceId state time n dev moved changed _ hempty hdevice hmoved hs =>
      refine deviceKept_of_rewrites hs fun d hd => ?_
      obtain ⟨hnext, hmid⟩ := state_transition hmoved
      have hdid : dev.id = deviceId := by simpa using List.find?_some hdevice
      have hmid : moved.id = deviceId := hmid.trans hdid
      rw [NodeRecord.device, ← hmid, find?_replaceF, hmid]
      split_ifs with hid
      · subst hid
        obtain rfl : dev = d := Option.some.inj (hdevice.symm.trans hd)
        refine ⟨moved, ?_, .inr ⟨state, time, rfl, allowed_transition hmoved, hnext⟩⟩
        rw [show n.devices.find? (·.id = device) = some dev from hd]
        rfl
      · exact ⟨d, hd, .inl rfl⟩
    | unknown hn => exact deviceKept_of_node rfl
    | forget hn hstate hempty hs =>
      intro n d n' hn₀ hd hn'
      rw [node_erase _ hs] at hn'
      split_ifs at hn'
      obtain rfl : n = n' := Option.some.inj (hn₀.symm.trans hn')
      exact ⟨d, hd, .inl rfl⟩

/-! ## Runs -/

/-- From one state to another by a `SetDeviceState` of the commands that the table allows. -/
def Ordered (commands : List ClusterCommand) (node : NodeId) (device : DeviceId) (state next : DeviceState) : Prop :=
  state.canTransitionTo next = true ∧ ∃ time, ClusterCommand.setDeviceState node device next time ∈ commands

/-- What each command keeps, a run keeps as long as the node is registered. -/
theorem deviceKept_run {node : NodeId} {device : DeviceId} (commands : List ClusterCommand) {s : ClusterCatalog}
    (hkept : Meets (fun s c => some (s.next c)) (fun s c => DeviceKept c s (s.next c) node device) s commands)
    (hstays : ∀ before, before <+: commands → ((before.foldl ClusterCatalog.next s).node node).isSome = true)
    {n : NodeRecord} {d : DeviceRecord} (hn : s.node node = some n) (hd : n.device device = some d) :
    ∃ n' d', (commands.foldl ClusterCatalog.next s).node node = some n' ∧ n'.device device = some d' ∧
      Relation.ReflTransGen (Ordered commands node device) d.state d'.state := by
  induction commands generalizing s n d with
  | nil => exact ⟨n, d, hn, hd, .refl⟩
  | cons c commands ih =>
    obtain ⟨n₁, hn₁⟩ := Option.isSome_iff_exists.mp (hstays [c] ⟨commands, rfl⟩)
    obtain ⟨d₁, hd₁, hstate⟩ := hkept.1 n d n₁ hn hd hn₁
    obtain ⟨n', d', hn', hd', hpath⟩ := ih (hkept.2 _ rfl)
      (fun before h => hstays (c :: before) (List.cons_prefix_cons.mpr ⟨rfl, h⟩)) hn₁ hd₁
    refine ⟨n', d', hn', hd', ?_⟩
    have hrest : Relation.ReflTransGen (Ordered (c :: commands) node device) d₁.state d'.state :=
      hpath.lift id fun _ _ h => ⟨h.1, h.2.imp fun _ => List.mem_cons_of_mem c⟩
    rcases hstate with hsame | ⟨state, time, rfl, hallowed, rfl⟩
    · exact hsame ▸ hrest
    · exact .head ⟨hallowed, time, List.mem_cons_self⟩ hrest

/-- In every run: each command keeps the devices exactly if each node that registers again brings its devices as they
are recorded; and then a device of a node that stays registered is there at the end, in a state that allowed
`SetDeviceState` commands of the run lead to. -/
theorem devices_kept_iff (s : ClusterCatalog) (commands : List ClusterCommand) :
    (Meets (fun s c => some (s.next c)) (fun s c => ∀ node device, DeviceKept c s (s.next c) node device) s commands ↔
      Meets (fun s c => some (s.next c)) CarriesDevices s commands) ∧
    (Meets (fun s c => some (s.next c)) CarriesDevices s commands → ∀ node device n d, s.node node = some n →
      n.device device = some d →
      (∀ before, before <+: commands → ((before.foldl ClusterCatalog.next s).node node).isSome = true) →
      ∃ n' d', (commands.foldl ClusterCatalog.next s).node node = some n' ∧ n'.device device = some d' ∧
        Relation.ReflTransGen (Ordered commands node device) d.state d'.state) := by
  refine ⟨?_, fun hcarries node device n d hn hd hstays => deviceKept_run commands ?_ hstays hn hd⟩
  · exact Meets.iff_of (P := fun _ => True) (fun s c _ (_ : True) => deviceKept_iff_carriesDevices s c)
      (fun _ _ _ _ _ _ => trivial) trivial fun _ _ => trivial
  · exact hcarries.imp_of (P := fun _ => True)
      (fun s c _ hc => (deviceKept_iff_carriesDevices s c).mpr hc node device) (fun _ _ _ _ _ _ => trivial) trivial

namespace Sample

/-- A registration of a node with one active drive. -/
def registration : ClusterCommand :=
  .registerNode ⟨.ofNat 1, "n1:7603", defaultStorageClass, [], ⟨100, 100, 0, 0⟩, [device 1 1]⟩ .epoch

/-- The node joins, and an operator marks its drive as failed. -/
def failedDrive : List ClusterCommand :=
  [.initializeCluster ⟨.ofNat 1, 1, .epoch, 0, none, none⟩ .default, registration,
    .setDeviceState (.ofNat 1) (.ofNat 1) .failed .epoch]

/-- The recorded drive. -/
def driveAfter (commands : List ClusterCommand) : Option DeviceRecord :=
  ((after commands).node (.ofNat 1)).bind (·.device (.ofNat 1))

end Sample

/-- The node restarts and registers again with its drive as active: the failed drive takes new replicas. -/
theorem restart_revives_failed_drive :
    (∃ d, Sample.driveAfter Sample.failedDrive = some d ∧ d.state = .failed ∧ d.eligibleForPlacement 0 0 = false) ∧
      ∃ d, Sample.driveAfter (Sample.failedDrive ++ [Sample.registration]) = some d ∧
        d.eligibleForPlacement 0 0 = true := by
  decide +kernel

end RecordStore.Cluster

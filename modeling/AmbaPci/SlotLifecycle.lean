import AmbaPci.SlotSystem

set_option autoImplicit false

/- The lifecycle invariant of a slot entry. -/
namespace AmbaPci

/-- A device of the boot ROM's ids, whatever its class and BARs. -/
def IsBootRom (pdev : PciDev) : Prop :=
  pdev.vendor = ambaPciTargetVendorId ∧ pdev.device = ambaPciTargetDeviceId

def IsVirtio (pdev : PciDev) : Prop :=
  pdev.vendor = ambaPciTargetVendorId ∧ pdev.device = ambaPciVirtioDeviceId

theorem isBootRom_of_card {pdev : PciDev} (card : isBootRomCard pdev = true) : IsBootRom pdev := by
  simp only [isBootRomCard, decide_eq_true_eq] at card
  exact ⟨card.1, card.2.1⟩

theorem isVirtio_of_card {pdev : PciDev} (card : isVirtioCard pdev = true) : IsVirtio pdev := by
  simp only [isVirtioCard, decide_eq_true_eq] at card
  exact ⟨card.1, card.2.1⟩

/-- The clauses that tie the fields of one slot entry together between lock-protected steps. -/
structure SlotInvariant (index : Fin ambaPciDevMax) (e : Entry) : Prop where
  unused : e.inUse = false → e.pdev = none ∧ e.bootMemBase = none ∧ e.procDir = false ∧
    e.state = .disconnected ∧ e.boardInfoIsUpdated = false
  used : e.inUse = true → e.procDir = true ∧
    (e.pdev = none → e.state = .booting ∨ e.state = .bootFailed)
  mapped : e.bootMemBase ≠ none → e.pdev ≠ none
  bootRom : e.inUse = true → e.state = .disconnected → ∀ pdev, e.pdev = some pdev → IsBootRom pdev
  virtio : e.state = .connected ∨ e.state = .rebooting →
    ∀ pdev, e.pdev = some pdev → IsVirtio pdev
  bus : ∀ pdev, e.pdev = some pdev → pdev.bus = (pciePhysicalSlots index).bus
  timeout : e.state = .booting →
    e.bootTimeoutWork.pending ≠ .idle ∨ e.bootTimeoutWork.running = true

theorem slotInvariant_zeroed (index : Fin ambaPciDevMax) : SlotInvariant index {} where
  unused _ := ⟨rfl, rfl, rfl, rfl, rfl⟩
  used impossible := nomatch impossible
  mapped present := absurd rfl present
  bootRom impossible := nomatch impossible
  virtio impossible := by rcases impossible with h | h <;> cases h
  bus _ impossible := nomatch impossible
  timeout impossible := nomatch impossible

/-- Only an entry in use is ever in another state than DISCONNECTED. -/
theorem SlotInvariant.inUse_of_state {index : Fin ambaPciDevMax} {e : Entry}
    (valid : SlotInvariant index e) (settled : e.state ≠ .disconnected) : e.inUse = true := by
  cases used : e.inUse with
  | true => rfl
  | false => exact absurd (valid.unused used).2.2.2.1 settled

/-- A refreshed entry: its board info fields may differ, and its mapping only with a device. -/
theorem SlotInvariant.refreshed {index : Fin ambaPciDevMax} {e e' : Entry}
    (valid : SlotInvariant index e) (change : Refreshes e e') (idle : e.inUse = false → e' = e) :
    SlotInvariant index e' where
  unused free := by
    have same := idle (change.inUse ▸ free)
    subst same
    exact valid.unused free
  used inUse := by
    rw [change.procDir, change.pdev, change.state]
    exact valid.used (change.inUse ▸ inUse)
  mapped present := by
    rw [change.pdev]
    intro none
    have same := change.detached none
    subst same
    exact valid.mapped present none
  bootRom inUse state := by
    rw [change.pdev]
    exact valid.bootRom (change.inUse ▸ inUse) (change.state ▸ state)
  virtio state := by
    rw [change.pdev]
    exact valid.virtio (change.state ▸ state)
  bus := by
    rw [change.pdev]
    exact valid.bus
  timeout state := by
    rw [change.work]
    exact valid.timeout (change.state ▸ state)

theorem SlotInvariant.initialized {index : Fin ambaPciDevMax} {e : Entry} {pdev : PciDev}
    {id : BitVec 32} (slot : getPciSlotId pdev = some index) (card : IsBootRom pdev) :
    SlotInvariant index (initialized pdev index id e) where
  unused impossible := nomatch impossible
  used _ := ⟨rfl, fun impossible => nomatch impossible⟩
  mapped present := absurd rfl present
  bootRom := by
    rintro - - _ ⟨⟩
    exact card
  virtio impossible := by rcases impossible with h | h <;> cases h
  bus := by
    rintro _ ⟨⟩
    exact getPciSlotId_bus slot
  timeout impossible := nomatch impossible

/-- An entry in use that is CONNECTED to a virtio card of its bus. -/
theorem SlotInvariant.connected {index : Fin ambaPciDevMax} {e : Entry} {pdev : PciDev}
    (slot : getPciSlotId pdev = some index) (card : IsVirtio pdev) (inUse : e.inUse = true)
    (dir : e.procDir = true) (attached : e.pdev = some pdev) (state : e.state = .connected) :
    SlotInvariant index e where
  unused free := by simp [inUse] at free
  used _ := ⟨dir, fun none => by simp [attached] at none⟩
  mapped _ := by simp [attached]
  bootRom _ other := by simp [state] at other
  virtio _ other tracked := by
    rw [attached] at tracked
    cases tracked
    exact card
  bus other tracked := by
    rw [attached] at tracked
    cases tracked
    exact getPciSlotId_bus slot
  timeout other := by simp [state] at other

theorem SlotInvariant.added {index : Fin ambaPciDevMax} {e e' : Entry} {pdev : PciDev}
    {id : BitVec 32} {mayFail : Prop} (valid : SlotInvariant index e)
    (slot : getPciSlotId pdev = some index) (outcome : AddOutcome mayFail pdev index id e e') :
    SlotInvariant index e' := by
  cases outcome with
  | ignored used untaken => exact valid
  | reconnected used booting card =>
      exact .connected slot (isVirtio_of_card card) used (valid.used used).1 rfl rfl
  | connected free card => exact .connected slot (isVirtio_of_card card) rfl rfl rfl rfl
  | initialized free card unbooted => exact .initialized slot (isBootRom_of_card card)
  | unsupported free unbooted other => exact valid
  | failed _ free card _ undone =>
      obtain ⟨noDev, noMap, noDir, state, stale⟩ := valid.unused free
      rcases undone with rfl | ⟨name, rfl⟩
      · exact valid
      · exact ⟨fun _ => ⟨noDev, noMap, rfl, state, stale⟩, fun used => by simp [free] at used,
          valid.mapped, valid.bootRom, valid.virtio, valid.bus, valid.timeout⟩

theorem SlotInvariant.removed {index : Fin ambaPciDevMax} {e e' : Entry}
    (valid : SlotInvariant index e) (outcome : DelOutcome e e') : SlotInvariant index e' := by
  cases outcome with
  | ignored free => exact valid
  | detached used booting =>
      unfold detached
      split
      · exact valid
      · exact
          { unused := fun free => by simp [used] at free
            used := fun _ => ⟨(valid.used used).1, fun _ => Or.inl booting⟩
            mapped := fun present => absurd rfl present
            bootRom := fun _ state => by simp [booting] at state
            virtio := fun state => by simp [booting] at state
            bus := fun _ impossible => nomatch impossible
            timeout := fun _ => valid.timeout booting }
  | released used settled =>
      exact
        { unused := fun _ => ⟨rfl, rfl, rfl, rfl, rfl⟩
          used := fun used => by simp [released] at used
          mapped := fun present => absurd rfl present
          bootRom := fun used => by simp [released] at used
          virtio := fun state => by simp [released] at state
          bus := fun _ impossible => nomatch impossible
          timeout := fun state => by simp [released] at state }

/-- XFER_FIRMWARE: the timeout is cancelled first, so scheduling it arms its timer. -/
theorem SlotInvariant.booted {index : Fin ambaPciDevMax} {e mapped : Entry}
    (valid : SlotInvariant index e) (used : e.inUse = true) (change : Refreshes e mapped) :
    SlotInvariant index (pcieBootTimeoutSchedule { mapped with state := .booting }) := by
  have refreshed := valid.refreshed change fun free => by simp [used] at free
  have inUse : mapped.inUse = true := change.inUse.trans used
  exact
    { unused := fun free => by simp [pcieBootTimeoutSchedule, inUse] at free
      used := fun _ => ⟨(refreshed.used inUse).1, fun _ => Or.inl rfl⟩
      mapped := refreshed.mapped
      bootRom := fun _ state => by simp [pcieBootTimeoutSchedule] at state
      virtio := fun state => by simp [pcieBootTimeoutSchedule] at state
      bus := refreshed.bus
      timeout := fun _ => Or.inl (by
        simp [pcieBootTimeoutSchedule, cancelDelayedWork, scheduleDelayedWork]) }

theorem SlotInvariant.rebooted {index : Fin ambaPciDevMax} {e : Entry}
    (valid : SlotInvariant index e) (attached : e.pdev ≠ none) (running : e.state = .connected) :
    SlotInvariant index { e with state := .rebooting } := by
  have inUse := valid.inUse_of_state (by simp [running])
  exact
    { unused := fun free => by simp [inUse] at free
      used := fun _ => ⟨(valid.used inUse).1, fun none => absurd none attached⟩
      mapped := valid.mapped
      bootRom := fun _ state => by simp at state
      virtio := fun _ => valid.virtio (Or.inl running)
      bus := valid.bus
      timeout := fun state => by simp at state }

/-- The work function leaves BOOTING only for BOOT_FAILED. -/
theorem SlotInvariant.workRan {index : Fin ambaPciDevMax} {e : Entry}
    (valid : SlotInvariant index e) (work : DelayedWork) :
    SlotInvariant index { pcieBootTimeoutFn e with bootTimeoutWork := work } := by
  unfold pcieBootTimeoutFn
  split
  · rename_i failing
    obtain ⟨used, booting⟩ := failing
    exact
      { unused := fun free => by simp [used] at free
        used := fun _ => ⟨(valid.used used).1, fun _ => Or.inr rfl⟩
        mapped := valid.mapped
        bootRom := fun _ state => by simp at state
        virtio := fun state => by simp at state
        bus := valid.bus
        timeout := fun state => by simp at state }
  · rename_i other
    refine ⟨valid.unused, valid.used, valid.mapped, valid.bootRom, valid.virtio, valid.bus, ?_⟩
    intro state
    have booting : e.state = .booting := state
    exact absurd ⟨valid.inUse_of_state (by simp [booting]), booting⟩ other

theorem SlotInvariant.own {index : Fin ambaPciDevMax} {told : Prop} {e e' : Entry}
    (valid : SlotInvariant index e) (move : OwnMove told e e') : SlotInvariant index e' := by
  cases move with
  | refreshed change idle => exact valid.refreshed change idle
  | booted used idle attached change => exact valid.booted used change
  | rebooted asked attached running => exact valid.rebooted attached running
  | timerExpired armed =>
      exact ⟨valid.unused, valid.used, valid.mapped, valid.bootRom, valid.virtio, valid.bus,
        fun _ => Or.inl (by simp)⟩
  | workStarted queued returned =>
      exact ⟨valid.unused, valid.used, valid.mapped, valid.bootRom, valid.virtio, valid.bus,
        fun _ => Or.inr rfl⟩
  | workRan started => exact valid.workRan _

/-- The step lemma: one case for each way an entry can change. -/
theorem SlotInvariant.move {index : Fin ambaPciDevMax} {e e' : Entry}
    (valid : SlotInvariant index e) (move : EntryMove index e e') : SlotInvariant index e' := by
  cases move with
  | own move => exact valid.own move
  | added pdev id slot outcome => exact valid.added slot outcome
  | removed outcome => exact valid.removed outcome

variable {allow : (op : Op) → op.Reply → Prop} {t : Timing}

/-- Every slot of every reachable table satisfies the lifecycle invariant. -/
theorem Reachable.slotInvariant {s : Platform} (reachable : Reachable allow t s)
    (index : Fin ambaPciDevMax) : SlotInvariant index (s.devs index) :=
  reachable.entry slotInvariant_zeroed (fun _ _ _ move valid => valid.move move) index

theorem slot_lifecycle (t : Timing) (s : Platform) (reachable : Reachable anyReply t s)
    (index : Fin ambaPciDevMax) : SlotInvariant index (s.devs index) :=
  reachable.slotInvariant index

/-- A boot-ROM card on bus 1 is added and sent its firmware. -/
def bootEvents : List Event :=
  [.add (cardAt 1 1 ambaPciTargetDeviceId), .xferFirmware smallRequest 0 0]

def bootingTable : Platform :=
  (driveEvents promptReply ⟨1000, 1⟩ bootEvents (platformInit true)).getD (platformInit true)

theorem slot_lifecycle_bootingTable :
    (bootingTable.devs 0).state = .booting ∧ SlotInvariant 0 (bootingTable.devs 0) :=
  ⟨by decide, slot_lifecycle ⟨1000, 1⟩ bootingTable
    (driveEvents_reachable promptReply (fun _ _ _ => trivial) bootEvents (.init true)
      (by rfl)) 0⟩

end AmbaPci

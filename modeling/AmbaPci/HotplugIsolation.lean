import AmbaPci.SlotLifecycle

set_option autoImplicit false

/- Which entries a hotplug notification changes. -/
namespace AmbaPci

open Interaction.Prog (Returns returns_done_iff)

variable {allow : (op : Op) → op.Reply → Prop} {t : Timing}

/-- A DEL changes only an entry that tracks the very device it is about, and no second entry; an
ADD of a device that is no supported card changes no entry at all. -/
def Isolated (action : BusAction) (pdev : PciDev) (s s' : Platform) : Prop :=
  match action with
  | .addDevice => isBootRomCard pdev = false → isVirtioCard pdev = false →
      ∀ index, s'.devs index = s.devs index
  | .delDevice => (∀ index, (s.devs index).pdev ≠ some pdev → s'.devs index = s.devs index) ∧
      ∀ index other, s'.devs index ≠ s.devs index → s'.devs other ≠ s.devs other → index = other
  | .other => ∀ index, s'.devs index = s.devs index

/-- The slots whose bus has the device's bus number are free, track that very device, or are
BOOTING with no device left to detach. -/
def DelSpares (pdev : PciDev) (s : Platform) : Prop :=
  ∀ index, pdev.bus = (pciePhysicalSlots index).bus → (s.devs index).inUse = true →
    (s.devs index).pdev = some pdev ∨
      ((s.devs index).state = .booting ∧ (s.devs index).pdev = none)

instance (pdev : PciDev) (s : Platform) : Decidable (DelSpares pdev s) :=
  inferInstanceAs (Decidable (∀ _, _ → _ → _))

theorem pciePhysicalSlots_bus_injective {index other : Fin ambaPciDevMax}
    (same : (pciePhysicalSlots index).bus = (pciePhysicalSlots other).bus) : index = other := by
  revert index other
  decide

theorem getPciSlotId_eq_some_iff (pdev : PciDev) (index : Fin ambaPciDevMax) :
    getPciSlotId pdev = some index ↔ pdev.bus = (pciePhysicalSlots index).bus := by
  constructor
  · exact getPciSlotId_bus
  · intro bus
    have present : (getPciSlotId pdev).isSome := by
      apply List.find?_isSome.mpr
      exact ⟨index, List.mem_finRange index, by simpa using bus⟩
    obtain ⟨other, found⟩ := Option.isSome_iff_exists.mp present
    rw [found, pciePhysicalSlots_bus_injective ((getPciSlotId_bus found).symm.trans bus)]

/-- A release always shows: the entry was in use and is not any more. -/
theorem released_ne {e : Entry} (used : e.inUse = true) : released e ≠ e := by
  intro same
  have free := congrArg Entry.inUse same
  simp [released, used] at free

theorem detached_eq_iff (e : Entry) : detached e = e ↔ e.pdev = none := by
  unfold detached
  split
  · rename_i none
    simpa using none
  · rename_i attached
    constructor
    · intro same
      exact (congrArg Entry.pdev same).symm
    · intro none
      simp [none] at attached

/-- An ADD that finds neither kind of card leaves the entry as it is. -/
theorem AddOutcome.unsupported_same {pdev : PciDev} {index : Fin ambaPciDevMax} {id : BitVec 32}
    {mayFail : Prop} {e e' : Entry} (outcome : AddOutcome mayFail pdev index id e e')
    (rom : isBootRomCard pdev = false)
    (virtio : isVirtioCard pdev = false) : e' = e := by
  cases outcome with
  | ignored => rfl
  | reconnected used booting card => simp [virtio] at card
  | connected free card => simp [virtio] at card
  | initialized free card => simp [rom] at card
  | unsupported => rfl
  | failed _ free card => simp [rom, virtio] at card

theorem add_isolated {pdev : PciDev} {s s' : Platform}
    (returned : Returns allow (pcieHandleAddLocked pdev s) s') : Isolated .addDevice pdev s s' := by
  intro rom virtio index
  rcases pcieHandleAddLocked_returns returned with ⟨-, rfl⟩ | ⟨slot, e', -, outcome, devs, -⟩
  · rfl
  · rw [devs, outcome.unsupported_same rom virtio, Platform.setDev_self]

/-- What a DEL leaves of its slot's entry is what was there exactly when the slot is free, or is
BOOTING without a device. -/
theorem DelOutcome.eq_iff {e e' : Entry} (outcome : DelOutcome e e') :
    e' = e ↔ e.inUse = false ∨ (e.state = .booting ∧ e.pdev = none) := by
  cases outcome with
  | ignored free => simp [free]
  | detached used booting => simp [detached_eq_iff, used, booting]
  | released used settled => simp [released_ne used, used, settled]

theorem del_isolated_iff {pdev : PciDev} {s s' : Platform}
    (returned : Returns allow (pcieHandleDelLocked pdev s) s') :
    Isolated .delDevice pdev s s' ↔ DelSpares pdev s := by
  rcases pcieHandleDelLocked_returns returned with ⟨nowhere, rfl⟩ | ⟨slot, e', found, outcome, rfl⟩
  · constructor
    · intro _ index bus
      rw [← getPciSlotId_eq_some_iff, nowhere] at bus
      cases bus
    · intro _
      exact ⟨fun _ _ => rfl, fun _ _ changed => absurd rfl changed⟩
  · have here := (getPciSlotId_eq_some_iff pdev slot).mp found
    have changed := outcome.eq_iff
    have only : ∀ index, (s.setDev slot e').devs index ≠ s.devs index → index = slot := by
      intro index moved
      by_cases same : index = slot
      · exact same
      · exact absurd (Platform.setDev_other s slot index e' same) moved
    constructor
    · intro isolated index bus used
      have same := pciePhysicalSlots_bus_injective (bus.symm.trans here)
      subst same
      by_cases tracked : (s.devs index).pdev = some pdev
      · exact Or.inl tracked
      · have kept := isolated.1 index tracked
        rw [Platform.setDev_same] at kept
        exact Or.inr ((changed.mp kept).resolve_left (by simp [used]))
    · intro spared
      refine ⟨?_, fun index other first second => (only index first).trans (only other second).symm⟩
      intro index untracked
      by_cases same : index = slot
      · subst same
        rw [Platform.setDev_same, changed]
        cases used : (s.devs index).inUse with
        | false => exact Or.inl rfl
        | true => exact Or.inr ((spared index here used).resolve_left untracked)
      · exact Platform.setDev_other s slot index e' same

/-- Hotplug isolation holds of a notification exactly when it is not a DEL that reaches the slot of
another device. -/
theorem hotplug_isolation_iff (s s' : Platform) (action : BusAction) (pdev : PciDev)
    (returned : Returns anyReply (pciePciBusNotify action pdev s) s') :
    Isolated action pdev s s' ↔ (action = .delDevice → DelSpares pdev s) := by
  cases action with
  | addDevice => simpa using add_isolated returned
  | delDevice => simpa using del_isolated_iff returned
  | other =>
      cases (returns_done_iff _ _).mp returned
      simp [Isolated]

/-- A boot-ROM card of bus 1 is in slot 0, and nothing else has happened. -/
def romTable : Platform :=
  (driveEvents promptReply ⟨1000, 1⟩ [.add (cardAt 1 1 ambaPciTargetDeviceId)]
    (platformInit true)).getD (platformInit true)

theorem romTable_reachable : Reachable anyReply ⟨1000, 1⟩ romTable :=
  driveEvents_reachable promptReply (fun _ _ _ => trivial)
    [.add (cardAt 1 1 ambaPciTargetDeviceId)] (.init true) (by rfl)

/-- A device that only shares the bus number, in another PCI domain. -/
def strangerOnBus1 : PciDev := { cardAt 2 1 0x1234 with domain := 1 }

def romTableAfterDel (pdev : PciDev) : Platform :=
  ((pciePciBusNotify .delDevice pdev romTable).eval promptReply).getD romTable

theorem romTableAfterDel_returns (pdev : PciDev) (ran : ((pciePciBusNotify .delDevice pdev
    romTable).eval promptReply).isSome = true) :
    Returns anyReply (pciePciBusNotify .delDevice pdev romTable) (romTableAfterDel pdev) :=
  Interaction.Prog.eval_getD_returns promptReply (fun _ _ _ => trivial) _ _ ran

theorem hotplug_isolation_iff_rom :
    Isolated .delDevice (cardAt 1 1 ambaPciTargetDeviceId) romTable
      (romTableAfterDel (cardAt 1 1 ambaPciTargetDeviceId)) :=
  (hotplug_isolation_iff romTable _ .delDevice (cardAt 1 1 ambaPciTargetDeviceId)
    (romTableAfterDel_returns _ (by rfl))).mpr fun _ => by decide

/-- A DEL of the stranger releases the slot of the card that is still there. -/
theorem hotplug_isolation_stranger :
    ∃ s pdev s', Reachable anyReply ⟨1000, 1⟩ s ∧
      Returns anyReply (pciePciBusNotify .delDevice pdev s) s' ∧
      (∀ index, (s.devs index).pdev ≠ some pdev) ∧ ¬ Isolated .delDevice pdev s s' :=
  ⟨romTable, strangerOnBus1, romTableAfterDel strangerOnBus1, romTable_reachable,
    romTableAfterDel_returns _ (by rfl), by decide,
    fun isolated => absurd (isolated.1 0 (by decide)) (by decide)⟩

end AmbaPci

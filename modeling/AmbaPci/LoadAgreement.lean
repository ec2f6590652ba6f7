import AmbaPci.HotplugIsolation

set_option autoImplicit false

/- The scan at module load compared with the notifications for the same devices. -/
namespace AmbaPci

open Interaction.Prog (Returns returns_done_iff returns_bind_iff)

/-- A kernel in which proc nodes always come into being. -/
def procSucceeds : (op : Op) → op.Reply → Prop
  | .procMkdir _, made => made = true
  | .procCreateData _ _, created => created = true
  | _, _ => True

theorem not_procMayFail_procSucceeds : ¬ ProcMayFail procSucceeds true := by
  intro failing
  rcases failing with rootless | ⟨name, refused⟩ | ⟨name, node, refused⟩
  · cases rootless
  · cases refused
  · cases refused

theorem promptReply_procSucceeds (op : Op) (reply : op.Reply)
    (answered : promptReply op = some reply) : procSucceeds op reply := by
  cases op with
  | procMkdir name => exact (Option.some.inj answered).symm
  | procCreateData name node => exact (Option.some.inj answered).symm
  | _ => trivial

/-- The entry ADD leaves when proc nodes can be made. -/
def addedEntry (pdev : PciDev) (index : Fin ambaPciDevMax) (id : BitVec 32) (e : Entry) : Entry :=
  if e.inUse then
    if e.state = .booting ∧ isVirtioCard pdev = true then
      { e with pdev := some pdev, bootTimeoutWork := cancelDelayedWork e.bootTimeoutWork,
               state := .connected }
    else e
  else if isVirtioCard pdev then { initialized pdev index id e with state := .connected }
  else if isBootRomCard pdev then initialized pdev index id e
  else e

theorem AddOutcome.eq_addedEntry {mayFail : Prop} {pdev : PciDev} {index : Fin ambaPciDevMax}
    {id : BitVec 32} {e e' : Entry} (outcome : AddOutcome mayFail pdev index id e e')
    (sure : ¬ mayFail) : e' = addedEntry pdev index id e := by
  cases outcome with
  | ignored used untaken =>
      rw [addedEntry, if_pos used, if_neg]
      rintro ⟨booting, card⟩
      rcases untaken with settled | unbooted
      · exact settled booting
      · simp [unbooted] at card
  | reconnected used booting card => rw [addedEntry, if_pos used, if_pos ⟨booting, card⟩]
  | connected free card => simp [addedEntry, free, card]
  | initialized free card unbooted => simp [addedEntry, free, card, unbooted]
  | unsupported free unbooted other => simp [addedEntry, free, unbooted, other]
  | failed failable => exact absurd failable sure

/-- A second ADD of the device that took a free slot changes nothing. -/
theorem addedEntry_again (pdev : PciDev) (index : Fin ambaPciDevMax) (id later : BitVec 32)
    {e : Entry} (free : e.inUse = false) :
    addedEntry pdev index later (addedEntry pdev index id e) = addedEntry pdev index id e := by
  by_cases virtio : isVirtioCard pdev = true
  · simp [addedEntry, free, virtio, initialized]
  · by_cases rom : isBootRomCard pdev = true
    · simp [addedEntry, free, virtio, rom, initialized]
    · simp [addedEntry, free, virtio, rom]

theorem pcieHandleAddLocked_entry {pdev : PciDev} {s s' : Platform} (root : s.procRoot = true)
    (returned : Returns procSucceeds (pcieHandleAddLocked pdev s) s') :
    s'.procRoot = true ∧ ∀ index, s'.devs index =
      if pdev.bus = (pciePhysicalSlots index).bus then
        addedEntry pdev index s.nextDevId (s.devs index)
      else s.devs index := by
  have sure : ¬ ProcMayFail procSucceeds s.procRoot := by
    rw [root]
    exact not_procMayFail_procSucceeds
  rcases pcieHandleAddLocked_returns returned with
    ⟨nowhere, rfl⟩ | ⟨slot, e', found, outcome, devs, kept⟩
  · refine ⟨root, fun index => ?_⟩
    rw [if_neg]
    intro bus
    rw [← getPciSlotId_eq_some_iff, nowhere] at bus
    cases bus
  · refine ⟨kept.trans root, fun index => ?_⟩
    rw [getPciSlotId_eq_some_iff] at found
    by_cases same : index = slot
    · subst same
      rw [devs, Platform.setDev_same, if_pos found]
      exact outcome.eq_addedEntry sure
    · rw [devs, Platform.setDev_other s slot index e' same, if_neg]
      intro bus
      exact same (pciePhysicalSlots_bus_injective (bus.symm.trans found))

theorem handleAdds_absent (pdevs : List PciDev) {s s' : Platform} (root : s.procRoot = true)
    (returned : Returns procSucceeds (handleAdds pdevs s) s') {index : Fin ambaPciDevMax}
    (absent : ∀ pdev ∈ pdevs, pdev.bus ≠ (pciePhysicalSlots index).bus) :
    s'.devs index = s.devs index := by
  induction pdevs generalizing s with
  | nil =>
      cases (returns_done_iff _ _).mp returned
      rfl
  | cons pdev rest ih =>
      obtain ⟨s₁, first, returned⟩ := (returns_bind_iff _ _ _).mp returned
      obtain ⟨root₁, added⟩ := pcieHandleAddLocked_entry root first
      rw [ih root₁ returned fun other inside => absent other (List.mem_cons_of_mem _ inside),
        added index, if_neg (absent pdev List.mem_cons_self)]

/-- The only device of a slot's bus decides the slot, however often and late it is added. -/
theorem handleAdds_present (pdevs : List PciDev) {s s' : Platform} (root : s.procRoot = true)
    (returned : Returns procSucceeds (handleAdds pdevs s) s') {index : Fin ambaPciDevMax}
    {pdev : PciDev} (bus : pdev.bus = (pciePhysicalSlots index).bus)
    (single : ∀ other ∈ pdevs, other.bus = (pciePhysicalSlots index).bus → other = pdev)
    {e : Entry} (free : e.inUse = false)
    (start : (s.devs index = e ∧ pdev ∈ pdevs) ∨
      ∃ id, s.devs index = addedEntry pdev index id e) :
    ∃ id, s'.devs index = addedEntry pdev index id e := by
  induction pdevs generalizing s with
  | nil =>
      cases (returns_done_iff _ _).mp returned
      rcases start with ⟨-, impossible⟩ | added
      · cases impossible
      · exact added
  | cons head rest ih =>
      obtain ⟨s₁, first, returned⟩ := (returns_bind_iff _ _ _).mp returned
      obtain ⟨root₁, added⟩ := pcieHandleAddLocked_entry root first
      apply ih root₁ returned fun other inside => single other (List.mem_cons_of_mem _ inside)
      have here := added index
      by_cases onBus : head.bus = (pciePhysicalSlots index).bus
      · rw [if_pos onBus, single head List.mem_cons_self onBus] at here
        right
        rcases start with ⟨zeroed, -⟩ | ⟨id, before⟩
        · exact ⟨s.nextDevId, by rw [here, zeroed]⟩
        · exact ⟨id, by rw [here, before, addedEntry_again pdev index id _ free]⟩
      · rw [if_neg onBus] at here
        rw [here]
        rcases start with ⟨zeroed, inside⟩ | before
        · rcases List.mem_cons.mp inside with rfl | inside
          · exact absurd bus onBus
          · exact Or.inl ⟨zeroed, inside⟩
        · exact Or.inr before

/-- BUS_NOTIFY_ADD_DEVICE for one device after another. -/
def notifyAdds : List PciDev → Platform → Host Platform
  | [], s => pure s
  | pdev :: rest, s => do
      let s ← pciePciBusNotify .addDevice pdev s
      notifyAdds rest s

theorem notifyAdds_eq (pdevs : List PciDev) (s : Platform) :
    notifyAdds pdevs s = handleAdds pdevs s := by
  induction pdevs generalizing s with
  | nil => rfl
  | cons pdev rest ih =>
      simp only [notifyAdds, handleAdds, pciePciBusNotify]
      congr 1
      funext s₁
      exact ih s₁

/-- At most one device on each slot's bus, and anything on the other buses. -/
def OnePerSlot (present : List PciDev) : Prop :=
  ∀ index, ∀ first ∈ present, ∀ second ∈ present,
    first.bus = (pciePhysicalSlots index).bus → second.bus = (pciePhysicalSlots index).bus →
      first = second

/-- The same entry up to its id. -/
def Entry.SameButId (e e' : Entry) : Prop := { e with id := 0 } = { e' with id := 0 }

instance (e e' : Entry) : Decidable (e.SameButId e') := inferInstanceAs (Decidable (_ = _))

theorem addedEntry_sameButId (pdev : PciDev) (index : Fin ambaPciDevMax) (id id' : BitVec 32)
    {e : Entry} (free : e.inUse = false) :
    (addedEntry pdev index id e).SameButId (addedEntry pdev index id' e) := by
  by_cases virtio : isVirtioCard pdev = true
  · simp [Entry.SameButId, addedEntry, free, virtio, initialized]
  · by_cases rom : isBootRomCard pdev = true
    · simp [Entry.SameButId, addedEntry, free, virtio, rom, initialized]
    · simp [Entry.SameButId, addedEntry, free, virtio, rom]

/-- The devices the scan adds, in its order. -/
def scanned (present : List PciDev) : List PciDev :=
  (List.finRange ambaPciDevMax).flatMap fun index =>
    present.filter (scanFinds (pciePhysicalSlots index))

theorem mem_scanned_iff (present : List PciDev) (pdev : PciDev) :
    pdev ∈ scanned present ↔ pdev ∈ present ∧ IsBootRom pdev ∧
      ∃ index, pdev.bus = (pciePhysicalSlots index).bus := by
  simp only [scanned, List.mem_flatMap, List.mem_finRange, true_and, List.mem_filter, scanFinds,
    pciePhysicalSlots, IsBootRom, decide_eq_true_eq]
  constructor
  · rintro ⟨index, inside, vendor, device, bus⟩
    exact ⟨inside, ⟨vendor, device⟩, index, bus⟩
  · rintro ⟨inside, ⟨vendor, device⟩, index, bus⟩
    exact ⟨index, inside, vendor, device, bus⟩

/-- What the scan makes of the slot of a device it does not look for: nothing. -/
theorem scanned_skips {present : List PciDev} {s : Platform} (index : Fin ambaPciDevMax)
    (loaded : Returns procSucceeds (handleAdds (scanned present) (platformInit true)) s)
    (skipped : ∀ pdev ∈ present, pdev.bus = (pciePhysicalSlots index).bus → ¬ IsBootRom pdev) :
    s.devs index = {} := by
  apply handleAdds_absent (scanned present) rfl loaded
  intro pdev inside bus
  obtain ⟨inside, target, -⟩ := (mem_scanned_iff present pdev).mp inside
  exact skipped pdev inside bus target

theorem not_isBootRom_of_virtio {pdev : PciDev} (card : isVirtioCard pdev = true) :
    ¬ IsBootRom pdev := by
  rintro ⟨-, device⟩
  have other := (isVirtio_of_card card).2
  rw [device] at other
  exact absurd other (by decide)

theorem pcieEnumerateExistedDevs_eq (present : List PciDev) (s : Platform) :
    pcieEnumerateExistedDevs present s = handleAdds (scanned present) s :=
  enumerateSlots_eq present _ s

/-- Load and notifications agree on every slot whose bus carries no virtio card. A virtio card is
CONNECTED by its notification and is not seen by the scan, which looks for the boot ROM's ids. -/
theorem load_agreement (present order : List PciDev) (loaded notified : Platform)
    (single : OnePerSlot present) (reordered : order.Perm present)
    (scan : Returns procSucceeds (pcieEnumerateExistedDevs present (platformInit true)) loaded)
    (adds : Returns procSucceeds (notifyAdds order (platformInit true)) notified)
    (index : Fin ambaPciDevMax) :
    ((∀ pdev ∈ present, pdev.bus = (pciePhysicalSlots index).bus → isVirtioCard pdev = false) →
      (loaded.devs index).SameButId (notified.devs index)) ∧
    ∀ pdev ∈ present, pdev.bus = (pciePhysicalSlots index).bus → isVirtioCard pdev = true →
      loaded.devs index = {} ∧ (notified.devs index).inUse = true ∧
        (notified.devs index).state = .connected ∧ (notified.devs index).pdev = some pdev := by
  rw [pcieEnumerateExistedDevs_eq] at scan
  rw [notifyAdds_eq] at adds
  have decided : ∀ pdev ∈ present, pdev.bus = (pciePhysicalSlots index).bus →
      ∃ id, notified.devs index = addedEntry pdev index id {} := by
    intro pdev inside bus
    apply handleAdds_present order rfl adds bus ?_ rfl (Or.inl ⟨rfl, reordered.mem_iff.mpr inside⟩)
    intro other there onBus
    exact single index other (reordered.mem_iff.mp there) pdev inside onBus bus
  constructor
  · intro unbooted
    by_cases occupied : ∃ pdev ∈ present, pdev.bus = (pciePhysicalSlots index).bus
    · obtain ⟨pdev, inside, bus⟩ := occupied
      obtain ⟨id, after⟩ := decided pdev inside bus
      by_cases target : IsBootRom pdev
      · have found : pdev ∈ scanned present :=
          (mem_scanned_iff present pdev).mpr ⟨inside, target, index, bus⟩
        obtain ⟨id', before⟩ := handleAdds_present (scanned present) rfl scan bus
          (fun other there onBus => single index other
            ((mem_scanned_iff present other).mp there).1 pdev inside onBus bus)
          rfl (Or.inl ⟨rfl, found⟩)
        rw [before, after]
        exact addedEntry_sameButId pdev index id' id rfl
      · have rom : isBootRomCard pdev = false := by
          cases card : isBootRomCard pdev with
          | false => rfl
          | true => exact absurd (isBootRom_of_card card) target
        have missed := scanned_skips index scan fun other there onBus => by
          rw [single index other there pdev inside onBus bus]
          exact target
        rw [missed, after]
        simp [addedEntry, unbooted pdev inside bus, rom, Entry.SameButId]
    · have empty : ∀ pdev ∈ order, pdev.bus ≠ (pciePhysicalSlots index).bus :=
        fun pdev inside bus => occupied ⟨pdev, reordered.mem_iff.mp inside, bus⟩
      rw [handleAdds_absent order rfl adds empty, scanned_skips index scan
        fun pdev inside bus => absurd ⟨pdev, inside, bus⟩ occupied]
      rfl
  · intro pdev inside bus card
    obtain ⟨id, after⟩ := decided pdev inside bus
    have missed := scanned_skips index scan fun other there onBus => by
      rw [single index other there pdev inside onBus bus]
      exact not_isBootRom_of_virtio card
    rw [after]
    refine ⟨missed, ?_⟩
    simp [addedEntry, card, initialized]

def loadedTable (present : List PciDev) : Platform :=
  ((pcieEnumerateExistedDevs present (platformInit true)).eval promptReply).getD (platformInit true)

def notifiedTable (order : List PciDev) : Platform :=
  ((notifyAdds order (platformInit true)).eval promptReply).getD (platformInit true)

/-- A card in its boot ROM on bus 1 and one that runs its firmware on bus 2. -/
def mixedCards : List PciDev :=
  [cardAt 1 1 ambaPciTargetDeviceId, cardAt 2 2 ambaPciVirtioDeviceId]

theorem loadedTable_returns (present : List PciDev) (ran : ((pcieEnumerateExistedDevs present
    (platformInit true)).eval promptReply).isSome = true) :
    Returns procSucceeds (pcieEnumerateExistedDevs present (platformInit true))
      (loadedTable present) :=
  Interaction.Prog.eval_getD_returns promptReply promptReply_procSucceeds _ _ ran

theorem notifiedTable_returns (order : List PciDev) (ran : ((notifyAdds order
    (platformInit true)).eval promptReply).isSome = true) :
    Returns procSucceeds (notifyAdds order (platformInit true)) (notifiedTable order) :=
  Interaction.Prog.eval_getD_returns promptReply promptReply_procSucceeds _ _ ran

theorem load_agreement_mixedCards :
    ((loadedTable mixedCards).devs 0).SameButId ((notifiedTable mixedCards.reverse).devs 0) ∧
      ((loadedTable mixedCards).devs 0).inUse = true ∧ (loadedTable mixedCards).devs 1 = {} := by
  have agreed := load_agreement mixedCards mixedCards.reverse (loadedTable mixedCards)
    (notifiedTable mixedCards.reverse) (by unfold OnePerSlot mixedCards; decide)
    (List.reverse_perm mixedCards) (loadedTable_returns _ (by rfl))
    (notifiedTable_returns _ (by rfl))
  exact ⟨(agreed 0).1 (by decide), by decide,
    ((agreed 1).2 (cardAt 2 2 ambaPciVirtioDeviceId) (by decide) (by decide) (by decide)).1⟩

/-- With only the running card, load leaves its slot free and its notification does not. -/
theorem load_agreement_runningCard :
    ∃ present order loaded notified, OnePerSlot present ∧ order.Perm present ∧
      Returns procSucceeds (pcieEnumerateExistedDevs present (platformInit true)) loaded ∧
      Returns procSucceeds (notifyAdds order (platformInit true)) notified ∧
      ¬ ∀ index, (loaded.devs index).SameButId (notified.devs index) :=
  ⟨[cardAt 2 2 ambaPciVirtioDeviceId], [cardAt 2 2 ambaPciVirtioDeviceId],
    loadedTable [cardAt 2 2 ambaPciVirtioDeviceId],
    notifiedTable [cardAt 2 2 ambaPciVirtioDeviceId],
    by unfold OnePerSlot; decide, .refl _, loadedTable_returns _ (by rfl),
    notifiedTable_returns _ (by rfl), by decide⟩

end AmbaPci

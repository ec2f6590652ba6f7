import AmbaPci.SlotSteps

set_option autoImplicit false

/- The driver as a state machine: the lock-protected steps, in any order, from module init. -/
namespace AmbaPci

open Interaction.Prog (Returns returns_done_iff returns_perform_iff returns_bind_iff)

theorem getPciSlotId_bus {pdev : PciDev} {index : Fin ambaPciDevMax}
    (found : getPciSlotId pdev = some index) : pdev.bus = (pciePhysicalSlots index).bus := by
  simpa using List.find?_some found

/-- What ADD can do to the entry of its slot; `mayFail` says that proc nodes can be refused. -/
inductive AddOutcome (mayFail : Prop) (pdev : PciDev) (index : Fin ambaPciDevMax) (id : BitVec 32)
    (e : Entry) : Entry → Prop
  | ignored (used : e.inUse = true)
      (untaken : e.state ≠ .booting ∨ isVirtioCard pdev = false) :
      AddOutcome mayFail pdev index id e e
  | reconnected (used : e.inUse = true) (booting : e.state = .booting)
      (card : isVirtioCard pdev = true) :
      AddOutcome mayFail pdev index id e
        { e with pdev := some pdev, bootTimeoutWork := cancelDelayedWork e.bootTimeoutWork,
                 state := .connected }
  | connected (free : e.inUse = false) (card : isVirtioCard pdev = true) :
      AddOutcome mayFail pdev index id e { initialized pdev index id e with state := .connected }
  | initialized (free : e.inUse = false) (card : isBootRomCard pdev = true)
      (unbooted : isVirtioCard pdev = false) :
      AddOutcome mayFail pdev index id e (initialized pdev index id e)
  | unsupported (free : e.inUse = false) (unbooted : isVirtioCard pdev = false)
      (other : isBootRomCard pdev = false) : AddOutcome mayFail pdev index id e e
  | failed (failable : mayFail) (free : e.inUse = false)
      (card : isVirtioCard pdev = true ∨ isBootRomCard pdev = true) (e' : Entry)
      (undone : e' = e ∨ ∃ name, e' = { e with procName := name, procDir := false }) :
      AddOutcome mayFail pdev index id e e'

/-- What DEL can do to the entry of its slot. -/
inductive DelOutcome (e : Entry) : Entry → Prop
  | ignored (free : e.inUse = false) : DelOutcome e e
  | detached (used : e.inUse = true) (booting : e.state = .booting) : DelOutcome e (detached e)
  | released (used : e.inUse = true) (settled : e.state ≠ .booting) : DelOutcome e (released e)

variable {allow : (op : Op) → op.Reply → Prop}

/-- ADD touches at most the entry of the device's slot. -/
theorem pcieHandleAddLocked_returns {pdev : PciDev} {s s' : Platform}
    (returned : Returns allow (pcieHandleAddLocked pdev s) s') :
    (getPciSlotId pdev = none ∧ s' = s) ∨
      ∃ index e', getPciSlotId pdev = some index ∧
        AddOutcome (ProcMayFail allow s.procRoot) pdev index s.nextDevId (s.devs index) e' ∧
        s'.devs = (s.setDev index e').devs ∧ s'.procRoot = s.procRoot := by
  unfold pcieHandleAddLocked at returned
  split at returned
  · rename_i nowhere
    cases (returns_done_iff _ _).mp returned
    exact Or.inl ⟨nowhere, rfl⟩
  · rename_i index found
    refine Or.inr ⟨index, ?_⟩
    split at returned
    · rename_i used
      split at returned
      · rename_i settled
        cases (returns_done_iff _ _).mp returned
        exact ⟨_, found, .ignored used (Or.inl settled), by rw [Platform.setDev_self], rfl⟩
      · rename_i booting
        split at returned
        · rename_i card
          obtain ⟨e', first, returned⟩ := (returns_bind_iff _ _ _).mp returned
          obtain ⟨_, -, first⟩ := (returns_perform_iff _ _ _).mp first
          cases (returns_done_iff _ _).mp first
          cases (returns_done_iff _ _).mp returned
          exact ⟨_, found, .reconnected used (Decidable.not_not.mp booting) card, rfl, rfl⟩
        · rename_i card
          cases (returns_done_iff _ _).mp returned
          exact ⟨_, found, .ignored used (Or.inr (by simpa using card)),
            by rw [Platform.setDev_self], rfl⟩
    · rename_i unused
      have free : (s.devs index).inUse = false := by simpa using unused
      split at returned
      · rename_i card
        obtain ⟨⟨ret, s₁⟩, first, returned⟩ := (returns_bind_iff _ _ _).mp returned
        simp only at returned
        rcases pcieInitSlot_returns first with
          ⟨zero, made⟩ | ⟨nonzero, failable, e', undone, unmade⟩
        · rw [if_neg (by simp [zero])] at returned
          cases (returns_done_iff _ _).mp returned
          subst made
          refine ⟨_, found, .connected free card, ?_, rfl⟩
          funext other
          by_cases same : other = index
          · subst same
            simp [Platform.setDev]
          · simp [Platform.setDev, same]
        · rw [if_pos nonzero] at returned
          cases (returns_done_iff _ _).mp returned
          subst undone
          exact ⟨e', found, .failed failable free (Or.inl card) e' unmade, rfl, rfl⟩
      · rename_i unbooted
        have unbooted : isVirtioCard pdev = false := by simpa using unbooted
        split at returned
        · rename_i card
          obtain ⟨⟨ret, s₁⟩, first, returned⟩ := (returns_bind_iff _ _ _).mp returned
          cases (returns_done_iff _ _).mp returned
          rcases pcieInitSlot_returns first with
            ⟨zero, made⟩ | ⟨nonzero, failable, e', undone, unmade⟩
          · subst made
            exact ⟨_, found, .initialized free card unbooted, rfl, rfl⟩
          · subst undone
            exact ⟨e', found, .failed failable free (Or.inr card) e' unmade, rfl, rfl⟩
        · rename_i other
          cases (returns_done_iff _ _).mp returned
          exact ⟨_, found, .unsupported free unbooted (by simpa using other),
            by rw [Platform.setDev_self], rfl⟩

/-- DEL touches at most the entry of the device's slot, whichever device it is about. -/
theorem pcieHandleDelLocked_returns {pdev : PciDev} {s s' : Platform}
    (returned : Returns allow (pcieHandleDelLocked pdev s) s') :
    (getPciSlotId pdev = none ∧ s' = s) ∨
      ∃ index e', getPciSlotId pdev = some index ∧ DelOutcome (s.devs index) e' ∧
        s' = s.setDev index e' := by
  unfold pcieHandleDelLocked at returned
  split at returned
  · rename_i nowhere
    cases (returns_done_iff _ _).mp returned
    exact Or.inl ⟨nowhere, rfl⟩
  · rename_i index found
    refine Or.inr ⟨index, ?_⟩
    split at returned
    · rename_i free
      cases (returns_done_iff _ _).mp returned
      exact ⟨_, found, .ignored (by simpa using free), by rw [Platform.setDev_self]⟩
    · rename_i unfree
      have used : (s.devs index).inUse = true := by simpa using unfree
      split at returned
      · rename_i booting
        obtain ⟨e', first, returned⟩ := (returns_bind_iff _ _ _).mp returned
        cases (returns_done_iff _ _).mp returned
        exact ⟨e', found, pcieEntryDetachPdev_returns first ▸ .detached used booting, rfl⟩
      · rename_i settled
        obtain ⟨e', first, returned⟩ := (returns_bind_iff _ _ _).mp returned
        cases (returns_done_iff _ _).mp returned
        have left := pcieReleaseDev_returns first
        rw [if_pos used] at left
        exact ⟨e', found, left ▸ .released used settled, rfl⟩

/-- A lock-protected step of the driver, or a move of a slot's delayed work. -/
inductive Event
  | add (pdev : PciDev)
  | del (pdev : PciDev)
  | enumerate (present : List PciDev)
  | query
  | devInfo (index : Fin ambaPciDevMax)
  | xferFirmware (req : FwXfer) (index : Fin ambaPciDevMax) (ret : Int)
  | reboot (index : Fin ambaPciDevMax)
  | timerExpires (index : Fin ambaPciDevMax)
  | workStarts (index : Fin ambaPciDevMax)
  | workRuns (index : Fin ambaPciDevMax)

/-- The steps. A started work function runs when it gets the lock, and has then returned. -/
inductive LockedStep (allow : (op : Op) → op.Reply → Prop) (t : Timing) :
    Platform → Event → Platform → Prop
  | add {s s' : Platform} {pdev : PciDev}
      (returned : Returns allow (pciePciBusNotify .addDevice pdev s) s') :
      LockedStep allow t s (.add pdev) s'
  | del {s s' : Platform} {pdev : PciDev}
      (returned : Returns allow (pciePciBusNotify .delDevice pdev s) s') :
      LockedStep allow t s (.del pdev) s'
  | enumerate {s s' : Platform} {present : List PciDev}
      (returned : Returns allow (pcieEnumerateExistedDevs present s) s') :
      LockedStep allow t s (.enumerate present) s'
  | query {s s' : Platform} {infos : List DevInfo}
      (returned : Returns allow (pcieQueryPlatformInfoLocked s) (infos, s')) :
      LockedStep allow t s .query s'
  | devInfo {s s' : Platform} {index : Fin ambaPciDevMax} {info : DevInfo}
      (returned : Returns allow (pcieDevInfoReadLocked index s) (info, s')) :
      LockedStep allow t s (.devInfo index) s'
  | xferFirmware {s : Platform} {req : FwXfer} {index : Fin ambaPciDevMax} {ret : Int} {e' : Entry}
      (accepted : fwXferAccepted req = true) (addressed : req.slotId.toNat = index.val)
      (returned : Returns allow (pcieXferFirmwareLocked t req (s.devs index)) (ret, e')) :
      LockedStep allow t s (.xferFirmware req index ret) (s.setDev index e')
  | reboot {s : Platform} {index : Fin ambaPciDevMax} :
      LockedStep allow t s (.reboot index) (s.setDev index (pcieRebootLocked (s.devs index)).2)
  | timerExpires {s : Platform} {index : Fin ambaPciDevMax}
      (armed : (s.devs index).bootTimeoutWork.pending = .armed) :
      LockedStep allow t s (.timerExpires index) (s.setDev index
        { s.devs index with
          bootTimeoutWork := { (s.devs index).bootTimeoutWork with pending := .queued } })
  | workStarts {s : Platform} {index : Fin ambaPciDevMax}
      (queued : (s.devs index).bootTimeoutWork.pending = .queued)
      (returned : (s.devs index).bootTimeoutWork.running = false) :
      LockedStep allow t s (.workStarts index) (s.setDev index
        { s.devs index with bootTimeoutWork := { pending := .idle, running := true } })
  | workRuns {s : Platform} {index : Fin ambaPciDevMax}
      (started : (s.devs index).bootTimeoutWork.running = true) :
      LockedStep allow t s (.workRuns index) (s.setDev index
        { pcieBootTimeoutFn (s.devs index) with
          bootTimeoutWork := { (s.devs index).bootTimeoutWork with running := false } })

/-- The tables the driver can be in between module init and module exit. `allow` is what the kernel
promises about its replies. -/
inductive Reachable (allow : (op : Op) → op.Reply → Prop) (t : Timing) : Platform → Prop
  | init (procRoot : Bool) : Reachable allow t (platformInit procRoot)
  | step {s s' : Platform} {event : Event} (before : Reachable allow t s)
      (step : LockedStep allow t s event s') : Reachable allow t s'

/-- What can happen to one entry in one step that is no hotplug notification; `told` says that the
step is a reboot write for this entry. -/
inductive OwnMove (told : Prop) (e : Entry) : Entry → Prop
  | refreshed {e' : Entry} (change : Refreshes e e') (idle : e.inUse = false → e' = e) :
      OwnMove told e e'
  | booted {mapped : Entry} (used : e.inUse = true) (idle : e.state = .disconnected)
      (attached : e.pdev.isSome = true) (change : Refreshes e mapped) :
      OwnMove told e (pcieBootTimeoutSchedule { mapped with state := .booting })
  | rebooted (asked : told) (attached : e.pdev ≠ none) (running : e.state = .connected) :
      OwnMove told e { e with state := .rebooting }
  | timerExpired (armed : e.bootTimeoutWork.pending = .armed) :
      OwnMove told e { e with bootTimeoutWork := { e.bootTimeoutWork with pending := .queued } }
  | workStarted (queued : e.bootTimeoutWork.pending = .queued)
      (returned : e.bootTimeoutWork.running = false) :
      OwnMove told e { e with bootTimeoutWork := { pending := .idle, running := true } }
  | workRan (started : e.bootTimeoutWork.running = true) :
      OwnMove told e { pcieBootTimeoutFn e with
        bootTimeoutWork := { e.bootTimeoutWork with running := false } }

/-- Everything that can happen to one entry in one step, from whichever function. -/
inductive EntryMove (index : Fin ambaPciDevMax) (e : Entry) : Entry → Prop
  | own {e' : Entry} {told : Prop} (move : OwnMove told e e') : EntryMove index e e'
  | added {e' : Entry} {mayFail : Prop} (pdev : PciDev) (id : BitVec 32)
      (slot : getPciSlotId pdev = some index)
      (outcome : AddOutcome mayFail pdev index id e e') : EntryMove index e e'
  | removed {e' : Entry} (outcome : DelOutcome e e') : EntryMove index e e'

abbrev OwnMoves (told : Prop) : Entry → Entry → Prop := Relation.ReflTransGen (OwnMove told)

abbrev EntryMoves (index : Fin ambaPciDevMax) : Entry → Entry → Prop :=
  Relation.ReflTransGen (EntryMove index)

theorem OwnMoves.entryMoves {told : Prop} {e e' : Entry} (moved : OwnMoves told e e')
    (index : Fin ambaPciDevMax) : EntryMoves index e e' := by
  induction moved with
  | refl => exact .refl
  | tail _ last ih => exact ih.tail (.own last)

theorem OwnMove.pdev {told : Prop} {e e' : Entry} (move : OwnMove told e e') :
    e'.pdev = e.pdev := by
  cases move with
  | refreshed change idle => exact change.pdev
  | booted used idle attached change => exact change.pdev
  | rebooted asked attached running => rfl
  | timerExpired armed => rfl
  | workStarted queued returned => rfl
  | workRan started =>
      unfold pcieBootTimeoutFn
      split
      · rfl
      · rfl

/-- No step but a hotplug notification changes the device of an entry. -/
theorem OwnMoves.pdev {told : Prop} {e e' : Entry} (moved : OwnMoves told e e') :
    e'.pdev = e.pdev := by
  induction moved with
  | refl => rfl
  | tail _ last ih => exact last.pdev.trans ih

theorem OwnMoves.setDev {s : Platform} {index : Fin ambaPciDevMax} {e' : Entry}
    (told : Fin ambaPciDevMax → Prop) (moved : OwnMoves (told index) (s.devs index) e')
    (other : Fin ambaPciDevMax) :
    OwnMoves (told other) (s.devs other) ((s.setDev index e').devs other) := by
  by_cases same : other = index
  · subst same
    rw [Platform.setDev_same]
    exact moved
  · rw [Platform.setDev_other s index other e' same]

theorem EntryMove.setDev {s : Platform} {index : Fin ambaPciDevMax} {e' : Entry}
    (moved : EntryMove index (s.devs index) e') (other : Fin ambaPciDevMax) :
    EntryMoves other (s.devs other) ((s.setDev index e').devs other) := by
  by_cases same : other = index
  · subst same
    rw [Platform.setDev_same]
    exact .single moved
  · rw [Platform.setDev_other s index other e' same]

/-- ADD handled for one device after another. -/
def handleAdds : List PciDev → Platform → Host Platform
  | [], s => pure s
  | pdev :: rest, s => do
      let s ← pcieHandleAddLocked pdev s
      handleAdds rest s

theorem handleAdds_append (first second : List PciDev) (s : Platform) :
    handleAdds (first ++ second) s = handleAdds first s >>= handleAdds second := by
  induction first generalizing s with
  | nil => rfl
  | cons pdev rest ih =>
      simp only [List.cons_append, handleAdds, ih]
      rw [Interaction.Prog.bind_assoc]

/-- The test a device has to pass for the scan to add it to a slot. -/
def scanFinds (slot : PhysicalSlot) (pdev : PciDev) : Bool :=
  pdev.vendor = slot.targetVendor ∧ pdev.device = slot.targetDevice ∧ pdev.bus = slot.bus

theorem enumerateSlot_eq (slot : PhysicalSlot) (present : List PciDev) (s : Platform) :
    enumerateSlot slot present s = handleAdds (present.filter (scanFinds slot)) s := by
  induction present generalizing s with
  | nil => rfl
  | cons pdev rest ih =>
      unfold enumerateSlot
      by_cases target : pdev.vendor = slot.targetVendor ∧ pdev.device = slot.targetDevice
      · by_cases bus : pdev.bus = slot.bus
        · have found : scanFinds slot pdev = true := by simp [scanFinds, target, bus]
          simp only [target, and_self, bus, ne_eq, not_true_eq_false, ↓reduceIte, ih,
            List.filter_cons_of_pos found, handleAdds]
        · have missed : ¬ scanFinds slot pdev = true := by simp [scanFinds, bus]
          simp only [target, and_self, bus, ne_eq, not_false_eq_true, ↓reduceIte, ih,
            List.filter_cons_of_neg missed]
      · have missed : ¬ scanFinds slot pdev = true := by
          simp only [scanFinds, decide_eq_true_eq]
          exact fun found => target ⟨found.1, found.2.1⟩
        simp only [target, ↓reduceIte, ih, List.filter_cons_of_neg missed]

/-- The scan is the ADD of the devices it finds, slot by slot. -/
theorem enumerateSlots_eq (present : List PciDev) (slots : List (Fin ambaPciDevMax))
    (s : Platform) : enumerateSlots present slots s =
      handleAdds (slots.flatMap fun index => present.filter (scanFinds (pciePhysicalSlots index)))
        s := by
  induction slots generalizing s with
  | nil => rfl
  | cons slot rest ih =>
      simp only [enumerateSlots, List.flatMap_cons, handleAdds_append, enumerateSlot_eq]
      congr 1
      funext s₁
      exact ih s₁

/-- A property of one entry that every ADD of its slot keeps is kept by ADDs of any devices. -/
theorem pcieHandleAddLocked_keep (property : Entry → Prop) {index : Fin ambaPciDevMax}
    (kept : ∀ {mayFail : Prop} {pdev : PciDev} {id : BitVec 32} {e e' : Entry},
      getPciSlotId pdev = some index → AddOutcome mayFail pdev index id e e' →
        property e → property e')
    {pdev : PciDev} {s s' : Platform} (returned : Returns allow (pcieHandleAddLocked pdev s) s')
    (holds : property (s.devs index)) : property (s'.devs index) := by
  rcases pcieHandleAddLocked_returns returned with ⟨-, rfl⟩ | ⟨slot, e', found, outcome, devs, -⟩
  · exact holds
  · rw [devs]
    by_cases same : index = slot
    · subst same
      rw [Platform.setDev_same]
      exact kept found outcome holds
    · rw [Platform.setDev_other s slot index e' same]
      exact holds

theorem handleAdds_keep (property : Entry → Prop) {index : Fin ambaPciDevMax}
    (kept : ∀ {mayFail : Prop} {pdev : PciDev} {id : BitVec 32} {e e' : Entry},
      getPciSlotId pdev = some index → AddOutcome mayFail pdev index id e e' →
        property e → property e')
    (pdevs : List PciDev) {s s' : Platform} (returned : Returns allow (handleAdds pdevs s) s')
    (holds : property (s.devs index)) : property (s'.devs index) := by
  induction pdevs generalizing s with
  | nil =>
      cases (returns_done_iff _ _).mp returned
      exact holds
  | cons pdev rest ih =>
      obtain ⟨s₁, first, returned⟩ := (returns_bind_iff _ _ _).mp returned
      exact ih returned (pcieHandleAddLocked_keep property kept first holds)

theorem pcieHandleAddLocked_moves {pdev : PciDev} {s s' : Platform}
    (returned : Returns allow (pcieHandleAddLocked pdev s) s') (index : Fin ambaPciDevMax) :
    EntryMoves index (s.devs index) (s'.devs index) := by
  have kept : EntryMoves index (s.devs index) (s.devs index) := .refl
  exact pcieHandleAddLocked_keep (EntryMoves index (s.devs index))
    (fun found outcome moved => moved.tail (.added _ _ found outcome)) returned kept

theorem handleAdds_moves (pdevs : List PciDev) {s s' : Platform}
    (returned : Returns allow (handleAdds pdevs s) s') (index : Fin ambaPciDevMax) :
    EntryMoves index (s.devs index) (s'.devs index) := by
  have kept : EntryMoves index (s.devs index) (s.devs index) := .refl
  exact handleAdds_keep (EntryMoves index (s.devs index))
    (fun found outcome moved => moved.tail (.added _ _ found outcome)) pdevs returned kept

/-- A property of one entry that a refresh keeps is kept by the query of all slots. -/
theorem queryDevs_keep (property : Entry → Prop) {index : Fin ambaPciDevMax}
    (kept : ∀ {e e' : Entry}, Refreshes e e' → (e.inUse = false → e' = e) →
      property e → property e')
    (slots : List (Fin ambaPciDevMax)) {s s' : Platform} {infos : List DevInfo}
    (returned : Returns allow (queryDevs slots s) (infos, s'))
    (holds : property (s.devs index)) : property (s'.devs index) := by
  induction slots generalizing s infos with
  | nil =>
      cases (returns_done_iff _ _).mp returned
      exact holds
  | cons slot rest ih =>
      obtain ⟨⟨info, e'⟩, first, returned⟩ := (returns_bind_iff _ _ _).mp returned
      obtain ⟨⟨more, s₁⟩, second, returned⟩ := (returns_bind_iff _ _ _).mp returned
      cases (returns_done_iff _ _).mp returned
      obtain ⟨change, idle⟩ := pcieQueryDevInfoLocked_returns first
      apply ih second
      by_cases same : index = slot
      · subst same
        rw [Platform.setDev_same]
        exact kept change idle holds
      · rw [Platform.setDev_other s slot index e' same]
        exact holds

theorem queryDevs_moves (told : Fin ambaPciDevMax → Prop) (slots : List (Fin ambaPciDevMax))
    {s s' : Platform} {infos : List DevInfo}
    (returned : Returns allow (queryDevs slots s) (infos, s')) (index : Fin ambaPciDevMax) :
    OwnMoves (told index) (s.devs index) (s'.devs index) := by
  have kept : OwnMoves (told index) (s.devs index) (s.devs index) := .refl
  exact queryDevs_keep (OwnMoves (told index) (s.devs index))
    (fun change idle moved => moved.tail (.refreshed change idle)) slots returned kept

theorem pcieRebootLocked_moves {told : Prop} (asked : told) (e : Entry) :
    OwnMoves told e (pcieRebootLocked e).2 := by
  unfold pcieRebootLocked
  split
  · exact .refl
  · rename_i attached
    split
    · exact .refl
    · rename_i running
      exact .single (.rebooted asked (by simpa using attached) (Decidable.not_not.mp running))

/-- Whether an event handles notifications, or devices found at module load. -/
def Event.isHotplug : Event → Bool
  | .add _ | .del _ | .enumerate _ => true
  | _ => false

theorem LockedStep.ownMoves {t : Timing} {s s' : Platform} {event : Event}
    (step : LockedStep allow t s event s') (own : event.isHotplug = false)
    (index : Fin ambaPciDevMax) :
    OwnMoves (event = .reboot index) (s.devs index) (s'.devs index) := by
  have moves : ∀ {slot : Fin ambaPciDevMax} {e' : Entry},
      OwnMoves (event = .reboot slot) (s.devs slot) e' → ∀ other : Fin ambaPciDevMax,
        OwnMoves (event = .reboot other) (s.devs other) ((s.setDev slot e').devs other) :=
    OwnMoves.setDev fun slot => event = .reboot slot
  cases step with
  | add returned => cases own
  | del returned => cases own
  | enumerate returned => cases own
  | query returned =>
      exact queryDevs_moves (fun slot => Event.query = .reboot slot) _ returned index
  | devInfo returned =>
      obtain ⟨⟨info, e'⟩, first, returned⟩ := (returns_bind_iff _ _ _).mp returned
      cases (returns_done_iff _ _).mp returned
      obtain ⟨change, idle⟩ := pcieQueryDevInfoLocked_returns first
      exact moves (.single (.refreshed change idle)) index
  | xferFirmware _ _ returned =>
      rcases pcieXferFirmwareLocked_returns returned with
        ⟨-, change, idle⟩ | ⟨-, used, idle, attached, mapped, change, rfl⟩
      · exact moves (.single (.refreshed change fun free => idle (Or.inl free))) index
      · exact moves (.single (.booted used idle attached change)) index
  | reboot => exact moves (pcieRebootLocked_moves rfl _) index
  | timerExpires armed => exact moves (.single (.timerExpired armed)) index
  | workStarts queued returned =>
      exact moves (.single (.workStarted queued returned)) index
  | workRuns started => exact moves (.single (.workRan started)) index

/-- Every step of the driver moves every entry by entry moves only. -/
theorem LockedStep.moves {t : Timing} {s s' : Platform} {event : Event}
    (step : LockedStep allow t s event s') (index : Fin ambaPciDevMax) :
    EntryMoves index (s.devs index) (s'.devs index) := by
  by_cases own : event.isHotplug = false
  · exact (step.ownMoves own index).entryMoves index
  · cases step with
    | add returned => exact pcieHandleAddLocked_moves returned index
    | del returned =>
        rcases pcieHandleDelLocked_returns returned with ⟨-, rfl⟩ | ⟨slot, e', -, outcome, rfl⟩
        · exact .refl
        · exact EntryMove.setDev (.removed outcome) index
    | enumerate returned =>
        rw [pcieEnumerateExistedDevs, enumerateSlots_eq] at returned
        exact handleAdds_moves _ returned index
    | _ => exact absurd rfl own

theorem handleAdds_procRoot (pdevs : List PciDev) {s s' : Platform}
    (returned : Returns allow (handleAdds pdevs s) s') : s'.procRoot = s.procRoot := by
  induction pdevs generalizing s with
  | nil =>
      cases (returns_done_iff _ _).mp returned
      rfl
  | cons pdev rest ih =>
      obtain ⟨s₁, first, returned⟩ := (returns_bind_iff _ _ _).mp returned
      rw [ih returned]
      rcases pcieHandleAddLocked_returns first with ⟨-, rfl⟩ | ⟨slot, e', -, -, -, kept⟩
      · rfl
      · exact kept

theorem queryDevs_procRoot (slots : List (Fin ambaPciDevMax)) {s s' : Platform}
    {infos : List DevInfo} (returned : Returns allow (queryDevs slots s) (infos, s')) :
    s'.procRoot = s.procRoot := by
  induction slots generalizing s infos with
  | nil =>
      cases (returns_done_iff _ _).mp returned
      rfl
  | cons slot rest ih =>
      obtain ⟨⟨info, e'⟩, first, returned⟩ := (returns_bind_iff _ _ _).mp returned
      obtain ⟨⟨more, s₁⟩, second, returned⟩ := (returns_bind_iff _ _ _).mp returned
      cases (returns_done_iff _ _).mp returned
      rw [ih second, Platform.setDev_procRoot]

theorem LockedStep.procRoot {t : Timing} {s s' : Platform} {event : Event}
    (step : LockedStep allow t s event s') : s'.procRoot = s.procRoot := by
  cases step with
  | add returned =>
      rcases pcieHandleAddLocked_returns returned with ⟨-, rfl⟩ | ⟨slot, e', -, -, -, kept⟩
      · rfl
      · exact kept
  | del returned =>
      rcases pcieHandleDelLocked_returns returned with ⟨-, rfl⟩ | ⟨slot, e', -, -, rfl⟩
      · rfl
      · rfl
  | enumerate returned =>
      rw [pcieEnumerateExistedDevs, enumerateSlots_eq] at returned
      exact handleAdds_procRoot _ returned
  | query returned => exact queryDevs_procRoot _ returned
  | devInfo returned =>
      obtain ⟨⟨info, e'⟩, first, returned⟩ := (returns_bind_iff _ _ _).mp returned
      cases (returns_done_iff _ _).mp returned
      rfl
  | _ => rfl

theorem EntryMoves.keep {index : Fin ambaPciDevMax} {property : Entry → Prop}
    (kept : ∀ e e', EntryMove index e e' → property e → property e') {e e' : Entry}
    (moved : EntryMoves index e e') (holds : property e) : property e' := by
  induction moved with
  | refl => exact holds
  | tail _ last ih => exact kept _ _ last ih

/-- An entry property that holds of the zeroed entry and survives every entry move holds of every
entry the driver can reach. -/
theorem Reachable.entry {t : Timing} {property : Fin ambaPciDevMax → Entry → Prop}
    (initial : ∀ index, property index {})
    (kept : ∀ index e e', EntryMove index e e' → property index e → property index e')
    {s : Platform} (reachable : Reachable allow t s) (index : Fin ambaPciDevMax) :
    property index (s.devs index) := by
  induction reachable with
  | init procRoot => exact initial index
  | step before step ih => exact EntryMoves.keep (kept index) (step.moves index) ih

/-! The driver as a function, against fixed replies -/

/-- Replies of a kernel in which nothing fails and of an EP that is always ready. -/
def promptReply : (op : Op) → Option op.Reply
  | .readl _ _ off =>
      some (if off = rhMagicOff then ringMagic else if off = rhStateOff then ringStateOnline
        else if off = rhUsedOff then 0 else 4)
  | .jiffies => some 0
  | .kmalloc _ => some true
  | .copyFromUser _ length => some (some (Vector.replicate length 0))
  | .pciWriteConfigByte _ _ _ => some (0 : Int)
  | .barStatus _ _ => some ⟨false, true, 1⟩
  | .pciIomap _ _ _ => some (some 0)
  | .procMkdir _ => some true
  | .procCreateData _ _ => some true
  | .spin => none
  | .oops => none
  | .writel _ _ _ _ | .memcpyToio _ _ _ _ | .usleepRange | .msleep _ | .pciIounmap _ _
  | .pciDevGet _ | .pciDevPut _ | .pciSetMaster _ | .procUnlink _ | .procDrain _ => some ()

/-- A device with one memory BAR of 64 KiB, in PCI domain 0. -/
def cardAt (ref : Nat) (bus : BitVec 8) (device : BitVec 16) : PciDev where
  ref := ref
  domain := 0
  bus := bus
  devfn := 0
  vendor := ambaPciTargetVendorId
  device := device
  classCode := 0xff0000
  bars := Vector.ofFn fun bar : Fin pciStdNumBars =>
    if bar.val = 0 then ⟨true, 65536⟩ else ⟨false, 0⟩

/-- A request for slot 0 with three images of 16 bytes. -/
def smallRequest : FwXfer where
  slotId := 0
  fwSize := 48
  fwUserPtr := 4096
  images := #v[⟨ambaPciFwImageDtb, 0, 16⟩, ⟨ambaPciFwImageRootfs, 16, 16⟩,
    ⟨ambaPciFwImageKernel, 32, 16⟩]

/-- The table after one event, when the event can happen. -/
def driveEvent (answer : (op : Op) → Option op.Reply) (t : Timing) (s : Platform) :
    Event → Option Platform
  | .add pdev => (pciePciBusNotify .addDevice pdev s).eval answer
  | .del pdev => (pciePciBusNotify .delDevice pdev s).eval answer
  | .enumerate present => (pcieEnumerateExistedDevs present s).eval answer
  | .query => ((pcieQueryPlatformInfoLocked s).eval answer).map Prod.snd
  | .devInfo index => ((pcieDevInfoReadLocked index s).eval answer).map Prod.snd
  | .xferFirmware req index ret =>
      if fwXferAccepted req = true ∧ req.slotId.toNat = index.val then
        match (pcieXferFirmwareLocked t req (s.devs index)).eval answer with
        | some (value, e') => if value = ret then some (s.setDev index e') else none
        | none => none
      else none
  | .reboot index => some (s.setDev index (pcieRebootLocked (s.devs index)).2)
  | .timerExpires index =>
      if (s.devs index).bootTimeoutWork.pending = .armed then
        some (s.setDev index { s.devs index with
          bootTimeoutWork := { (s.devs index).bootTimeoutWork with pending := .queued } })
      else none
  | .workStarts index =>
      if (s.devs index).bootTimeoutWork.pending = .queued ∧
          (s.devs index).bootTimeoutWork.running = false then
        some (s.setDev index
          { s.devs index with bootTimeoutWork := { pending := .idle, running := true } })
      else none
  | .workRuns index =>
      if (s.devs index).bootTimeoutWork.running = true then
        some (s.setDev index { pcieBootTimeoutFn (s.devs index) with
          bootTimeoutWork := { (s.devs index).bootTimeoutWork with running := false } })
      else none

def driveEvents (answer : (op : Op) → Option op.Reply) (t : Timing) :
    List Event → Platform → Option Platform
  | [], s => some s
  | event :: rest, s =>
      match driveEvent answer t s event with
      | none => none
      | some s' => driveEvents answer t rest s'

theorem driveEvent_step {answer : (op : Op) → Option op.Reply} {t : Timing}
    (allowed : ∀ op reply, answer op = some reply → allow op reply) {s s' : Platform}
    {event : Event} (driven : driveEvent answer t s event = some s') :
    LockedStep allow t s event s' := by
  cases event with
  | add pdev => exact .add (Interaction.Prog.eval_returns answer allowed _ _ driven)
  | del pdev => exact .del (Interaction.Prog.eval_returns answer allowed _ _ driven)
  | enumerate present => exact .enumerate (Interaction.Prog.eval_returns answer allowed _ _ driven)
  | query =>
      obtain ⟨⟨infos, _⟩, ran, rfl⟩ := Option.map_eq_some_iff.mp driven
      exact .query (Interaction.Prog.eval_returns answer allowed _ _ ran)
  | devInfo index =>
      obtain ⟨⟨info, _⟩, ran, rfl⟩ := Option.map_eq_some_iff.mp driven
      exact .devInfo (Interaction.Prog.eval_returns answer allowed _ _ ran)
  | xferFirmware req index ret =>
      simp only [driveEvent] at driven
      split at driven
      · rename_i able
        split at driven
        · rename_i value e' ran
          split at driven
          · rename_i same
            cases driven
            subst same
            exact .xferFirmware able.1 able.2 (Interaction.Prog.eval_returns answer allowed _ _ ran)
          · cases driven
        · cases driven
      · cases driven
  | reboot index =>
      cases driven
      exact .reboot
  | timerExpires index =>
      simp only [driveEvent] at driven
      split at driven
      · cases driven
        exact .timerExpires (by assumption)
      · cases driven
  | workStarts index =>
      simp only [driveEvent] at driven
      split at driven
      · rename_i able
        cases driven
        exact .workStarts able.1 able.2
      · cases driven
  | workRuns index =>
      simp only [driveEvent] at driven
      split at driven
      · cases driven
        exact .workRuns (by assumption)
      · cases driven

theorem driveEvents_reachable (answer : (op : Op) → Option op.Reply) {t : Timing}
    (allowed : ∀ op reply, answer op = some reply → allow op reply) (events : List Event)
    {s s' : Platform} (reachable : Reachable allow t s)
    (driven : driveEvents answer t events s = some s') : Reachable allow t s' := by
  induction events generalizing s with
  | nil =>
      cases driven
      exact reachable
  | cons event rest ih =>
      simp only [driveEvents] at driven
      split at driven
      · cases driven
      · rename_i next first
        exact ih (reachable.step (driveEvent_step allowed first)) driven

end AmbaPci

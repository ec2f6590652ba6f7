import AmbaPci.LoadAgreement

set_option autoImplicit false

/- Which hotplug events reach the slot table: the runs in which each slot's bus carries at most one
device at a time and proc nodes can be made. -/
namespace AmbaPci

open Interaction.Prog (Returns)

/-- The device on a slot's bus, with the entry its ADD found; no entry for a device that was there
before the driver, whose ADD nobody heard. -/
structure Occupant where
  pdev : PciDev
  found : Option Entry
  deriving DecidableEq, Repr

abbrev Buses := Fin ambaPciDevMax → Option Occupant

/-- The buses when the driver is loaded. -/
def Buses.atLoad (present : List PciDev) : Buses := fun index =>
  (present.find? fun pdev => pdev.bus = (pciePhysicalSlots index).bus).map fun pdev => ⟨pdev, none⟩

def Buses.plug (buses : Buses) (pdev : PciDev) (s : Platform) : Buses := fun index =>
  if pdev.bus = (pciePhysicalSlots index).bus then some ⟨pdev, some (s.devs index)⟩
  else buses index

def Buses.unplug (buses : Buses) (pdev : PciDev) : Buses := fun index =>
  if pdev.bus = (pciePhysicalSlots index).bus then none else buses index

/-- No device is on the bus of the device's slot. -/
def Buses.Vacated (buses : Buses) (pdev : PciDev) : Prop :=
  ∀ index, pdev.bus = (pciePhysicalSlots index).bus → buses index = none

/-- The device itself is on the bus of its slot. -/
def Buses.Carries (buses : Buses) (pdev : PciDev) : Prop :=
  ∀ index, pdev.bus = (pciePhysicalSlots index).bus →
    (buses index).map Occupant.pdev = some pdev

instance (buses : Buses) (pdev : PciDev) : Decidable (buses.Vacated pdev) :=
  inferInstanceAs (Decidable (∀ _, _ → _))

instance (buses : Buses) (pdev : PciDev) : Decidable (buses.Carries pdev) :=
  inferInstanceAs (Decidable (∀ _, _ → _))

/-- ADD when a device appears and DEL when it disappears, alternating on every slot's bus, between
all other steps of the driver. -/
inductive HotplugRun (t : Timing) : Platform → Buses → Prop
  | load {present : List PciDev} {s : Platform} (single : OnePerSlot present)
      (scan : Returns procSucceeds (pcieEnumerateExistedDevs present (platformInit true)) s) :
      HotplugRun t s (Buses.atLoad present)
  | add {s s' : Platform} {buses : Buses} {pdev : PciDev} (before : HotplugRun t s buses)
      (absent : buses.Vacated pdev) (step : LockedStep procSucceeds t s (.add pdev) s') :
      HotplugRun t s' (buses.plug pdev s)
  | del {s s' : Platform} {buses : Buses} {pdev : PciDev} (before : HotplugRun t s buses)
      (present : buses.Carries pdev) (step : LockedStep procSucceeds t s (.del pdev) s') :
      HotplugRun t s' (buses.unplug pdev)
  | own {s s' : Platform} {buses : Buses} {event : Event} (before : HotplugRun t s buses)
      (quiet : event.isHotplug = false) (step : LockedStep procSucceeds t s event s') :
      HotplugRun t s' buses

/-- An entry in use that waits for its card to come back, or has given up waiting. -/
structure Waiting (e : Entry) : Prop where
  used : e.inUse = true
  detached : e.pdev = none
  state : e.state = .booting ∨ e.state = .bootFailed

structure Tracks (e : Entry) (pdev : PciDev) : Prop where
  used : e.inUse = true
  attached : e.pdev = some pdev

/-- What the entry of a bus without a device looks like. -/
def Vacant (e : Entry) : Prop := e.inUse = false ∨ Waiting e

/-- ADD finds the slot in a state in which it does not act on the device. -/
def Missed (pdev : PciDev) (found : Entry) : Prop :=
  found.inUse = true ∧
    (found.state = .bootFailed ∨ (found.state = .booting ∧ isBootRomCard pdev = true))

instance (pdev : PciDev) (found : Entry) : Decidable (Missed pdev found) :=
  inferInstanceAs (Decidable (_ ∧ _))

def IsSupported (pdev : PciDev) : Prop :=
  isBootRomCard pdev = true ∨ isVirtioCard pdev = true

/-- What the entry of a slot has to do with the device on its bus. -/
def Agrees (e : Entry) : Option Occupant → Prop
  | none => Vacant e
  | some ⟨_, none⟩ => True
  | some ⟨pdev, some found⟩ => IsSupported pdev →
      (¬ Missed pdev found → Tracks e pdev) ∧ (Missed pdev found → Waiting e)

theorem OwnMove.waiting {told : Prop} {e e' : Entry} (move : OwnMove told e e')
    (waits : Waiting e) : Waiting e' := by
  cases move with
  | refreshed change idle =>
      exact ⟨change.inUse.trans waits.used, change.pdev.trans waits.detached,
        by rw [change.state]; exact waits.state⟩
  | booted used idle attached change => simp [waits.detached] at attached
  | rebooted asked attached running => exact absurd waits.detached attached
  | timerExpired armed => exact ⟨waits.used, waits.detached, waits.state⟩
  | workStarted queued returned => exact ⟨waits.used, waits.detached, waits.state⟩
  | workRan started =>
      unfold pcieBootTimeoutFn
      split
      · exact ⟨waits.used, waits.detached, Or.inr rfl⟩
      · exact ⟨waits.used, waits.detached, waits.state⟩

theorem OwnMove.tracks {told : Prop} {e e' : Entry} {pdev : PciDev} (move : OwnMove told e e')
    (tracked : Tracks e pdev) : Tracks e' pdev := by
  cases move with
  | refreshed change idle =>
      exact ⟨change.inUse.trans tracked.used, change.pdev.trans tracked.attached⟩
  | booted used idle attached change =>
      exact ⟨change.inUse.trans tracked.used, change.pdev.trans tracked.attached⟩
  | rebooted asked attached running => exact ⟨tracked.used, tracked.attached⟩
  | timerExpired armed => exact ⟨tracked.used, tracked.attached⟩
  | workStarted queued returned => exact ⟨tracked.used, tracked.attached⟩
  | workRan started =>
      unfold pcieBootTimeoutFn
      split
      · exact ⟨tracked.used, tracked.attached⟩
      · exact ⟨tracked.used, tracked.attached⟩

theorem OwnMove.free {told : Prop} {e e' : Entry} (move : OwnMove told e e')
    (free : e.inUse = false) : e'.inUse = false := by
  cases move with
  | refreshed change idle => exact change.inUse.trans free
  | booted used idle attached change => simp [free] at used
  | rebooted asked attached running => exact free
  | timerExpired armed => exact free
  | workStarted queued returned => exact free
  | workRan started =>
      unfold pcieBootTimeoutFn
      split
      · exact free
      · exact free

/-- The driver's own steps keep what an entry has to do with its bus. -/
theorem OwnMove.agrees {told : Prop} {e e' : Entry} {occupant : Option Occupant}
    (move : OwnMove told e e') (agrees : Agrees e occupant) : Agrees e' occupant := by
  match occupant with
  | none =>
      rcases agrees with free | waits
      · exact Or.inl (move.free free)
      · exact Or.inr (move.waiting waits)
  | some ⟨_, none⟩ => trivial
  | some ⟨pdev, some found⟩ =>
      intro supported
      obtain ⟨tracked, waits⟩ := agrees supported
      exact ⟨fun heard => move.tracks (tracked heard), fun missed => move.waiting (waits missed)⟩

theorem OwnMoves.agrees {told : Prop} {e e' : Entry} {occupant : Option Occupant}
    (moved : OwnMoves told e e') (agrees : Agrees e occupant) : Agrees e' occupant := by
  induction moved with
  | refl => exact agrees
  | tail _ last ih => exact last.agrees ih

/-- DEL empties the slot, whatever was in it. -/
theorem DelOutcome.vacant {e e' : Entry} (outcome : DelOutcome e e') : Vacant e' := by
  cases outcome with
  | ignored free => exact Or.inl free
  | detached used booting =>
      unfold AmbaPci.detached
      split
      · rename_i none
        exact Or.inr ⟨used, by simpa using none, Or.inl booting⟩
      · exact Or.inr ⟨used, rfl, Or.inl booting⟩
  | released used settled => exact Or.inl rfl

/-- ADD of a supported card takes every vacant slot but those in which it is missed. -/
theorem addedEntry_agrees {e : Entry} (pdev : PciDev) (index : Fin ambaPciDevMax) (id : BitVec 32)
    (vacant : Vacant e) : Agrees (addedEntry pdev index id e) (some ⟨pdev, some e⟩) := by
  intro supported
  rcases vacant with free | waits
  · have heard : ¬ Missed pdev e := fun missed => absurd missed.1 (by simp [free])
    refine ⟨fun _ => ?_, fun missed => absurd missed heard⟩
    by_cases virtio : isVirtioCard pdev = true
    · simp only [addedEntry, free, virtio]
      exact ⟨rfl, rfl⟩
    · have rom := supported.resolve_right virtio
      simp only [addedEntry, free, virtio, rom]
      exact ⟨rfl, rfl⟩
  · constructor
    · intro heard
      have booting : e.state = .booting :=
        waits.state.resolve_right fun failed => heard ⟨waits.used, Or.inl failed⟩
      have virtio : isVirtioCard pdev = true :=
        supported.resolve_left fun rom => heard ⟨waits.used, Or.inr ⟨booting, rom⟩⟩
      rw [addedEntry, if_pos waits.used, if_pos ⟨booting, virtio⟩]
      exact ⟨waits.used, rfl⟩
    · rintro ⟨-, lost⟩
      rw [addedEntry, if_pos waits.used, if_neg]
      · exact waits
      · rintro ⟨booting, virtio⟩
        rcases lost with failed | ⟨-, rom⟩
        · rw [failed] at booting
          cases booting
        · exact not_isBootRom_of_virtio virtio (isBootRom_of_card rom)

theorem HotplugRun.procRoot {t : Timing} {s : Platform} {buses : Buses}
    (run : HotplugRun t s buses) : s.procRoot = true := by
  induction run with
  | load single scan =>
      rw [pcieEnumerateExistedDevs_eq] at scan
      exact handleAdds_procRoot _ scan
  | add before absent step ih => exact step.procRoot.trans ih
  | del before present step ih => exact step.procRoot.trans ih
  | own before quiet step ih => exact step.procRoot.trans ih

theorem agrees_atLoad {present : List PciDev} {s : Platform}
    (scan : Returns procSucceeds (pcieEnumerateExistedDevs present (platformInit true)) s)
    (index : Fin ambaPciDevMax) : Agrees (s.devs index) (Buses.atLoad present index) := by
  rw [pcieEnumerateExistedDevs_eq] at scan
  unfold Buses.atLoad
  cases found : present.find? fun pdev => pdev.bus = (pciePhysicalSlots index).bus with
  | none =>
      rw [List.find?_eq_none] at found
      rw [scanned_skips index scan fun pdev inside bus =>
        absurd bus (by simpa using found pdev inside)]
      exact Or.inl rfl
  | some pdev => trivial

/-- The run lemma: in every run every entry agrees with its bus. -/
theorem HotplugRun.agrees {t : Timing} {s : Platform} {buses : Buses}
    (run : HotplugRun t s buses) (index : Fin ambaPciDevMax) :
    Agrees (s.devs index) (buses index) := by
  induction run with
  | load single scan => exact agrees_atLoad scan index
  | @add s s' buses pdev before absent step ih =>
      cases step with
      | add returned =>
          have after := (pcieHandleAddLocked_entry before.procRoot returned).2 index
          rw [after]
          unfold Buses.plug
          split
          · rename_i bus
            rw [absent index bus] at ih
            exact addedEntry_agrees pdev index s.nextDevId ih
          · exact ih
  | @del s s' buses pdev before present step ih =>
      cases step with
      | del returned =>
          unfold Buses.unplug
          rcases pcieHandleDelLocked_returns returned with
            ⟨nowhere, rfl⟩ | ⟨slot, e', found, outcome, rfl⟩
          · rw [if_neg]
            · exact ih
            · intro bus
              rw [← getPciSlotId_eq_some_iff, nowhere] at bus
              cases bus
          · rw [getPciSlotId_eq_some_iff] at found
            by_cases same : index = slot
            · subst same
              rw [if_pos found, Platform.setDev_same]
              exact outcome.vacant
            · rw [Platform.setDev_other s slot index e' same, if_neg]
              · exact ih
              · intro bus
                exact same (pciePhysicalSlots_bus_injective (bus.symm.trans found))
  | own before quiet step ih =>
      exact OwnMoves.agrees (step.ownMoves quiet index) ih

/-- An ADD of a supported card reaches the slot table, and stays in it until the DEL, exactly when
it does not find its slot BOOT_FAILED, or BOOTING with a card that is in its boot ROM. -/
theorem hotplug_event_kept (t : Timing) (s : Platform) (buses : Buses)
    (run : HotplugRun t s buses) (index : Fin ambaPciDevMax) (pdev : PciDev) (found : Entry)
    (present : buses index = some ⟨pdev, some found⟩) (supported : IsSupported pdev) :
    (¬ Missed pdev found → (s.devs index).inUse = true ∧ (s.devs index).pdev = some pdev) ∧
      (Missed pdev found → (s.devs index).inUse = true ∧ (s.devs index).pdev = none ∧
        ((s.devs index).state = .booting ∨ (s.devs index).state = .bootFailed)) := by
  have agrees := run.agrees index
  rw [present] at agrees
  obtain ⟨heard, missed⟩ := agrees supported
  exact ⟨fun act => ⟨(heard act).used, (heard act).attached⟩,
    fun lost => ⟨(missed lost).used, (missed lost).detached, (missed lost).state⟩⟩

/-- The table and the buses after one event, when the run can take it. -/
def driveHotplug (t : Timing) : List Event → Platform × Buses → Option (Platform × Buses)
  | [], config => some config
  | event :: rest, (s, buses) =>
      match driveEvent promptReply t s event with
      | none => none
      | some s' =>
          match event with
          | .add pdev =>
              if buses.Vacated pdev then driveHotplug t rest (s', buses.plug pdev s) else none
          | .del pdev =>
              if buses.Carries pdev then driveHotplug t rest (s', buses.unplug pdev) else none
          | .enumerate _ => none
          | _ => driveHotplug t rest (s', buses)

theorem driveHotplug_run {t : Timing} (events : List Event) {s s' : Platform}
    {buses buses' : Buses} (run : HotplugRun t s buses)
    (driven : driveHotplug t events (s, buses) = some (s', buses')) : HotplugRun t s' buses' := by
  induction events generalizing s buses with
  | nil =>
      cases driven
      exact run
  | cons event rest ih =>
      simp only [driveHotplug] at driven
      split at driven
      · cases driven
      · rename_i next first
        have step := driveEvent_step promptReply_procSucceeds first
        cases event with
        | add pdev =>
            simp only [Option.ite_none_right_eq_some] at driven
            exact ih (run.add driven.1 step) driven.2
        | del pdev =>
            simp only [Option.ite_none_right_eq_some] at driven
            exact ih (run.del driven.1 step) driven.2
        | enumerate present => cases driven
        | _ => exact ih (run.own rfl step) driven

theorem HotplugRun.empty (t : Timing) : HotplugRun t (platformInit true) (Buses.atLoad []) :=
  .load (fun _ _ inside => nomatch inside)
    (Interaction.Prog.eval_returns promptReply promptReply_procSucceeds _ _ (by rfl))

/-- The card of bus 1 boots: it leaves in its boot ROM's shape and comes back running. -/
def rebirthEvents (late : List Event) : List Event :=
  [.add (cardAt 1 1 ambaPciTargetDeviceId), .xferFirmware smallRequest 0 0,
    .del (cardAt 1 1 ambaPciTargetDeviceId)] ++ late ++ [.add (cardAt 2 1 ambaPciVirtioDeviceId)]

/-- The boot timeout of slot 0 runs out. -/
def timeoutEvents : List Event := [.timerExpires 0, .workStarts 0, .workRuns 0]

def rebirth (late : List Event) : Platform × Buses :=
  (driveHotplug ⟨1000, 1⟩ (rebirthEvents late) (platformInit true, Buses.atLoad [])).getD
    (platformInit true, Buses.atLoad [])

theorem rebirth_run (late : List Event) (ran : (driveHotplug ⟨1000, 1⟩ (rebirthEvents late)
    (platformInit true, Buses.atLoad [])).isSome = true) :
    HotplugRun ⟨1000, 1⟩ (rebirth late).1 (rebirth late).2 := by
  obtain ⟨⟨s, buses⟩, found⟩ := Option.isSome_iff_exists.mp ran
  simp only [rebirth, found, Option.getD_some]
  exact driveHotplug_run _ (.empty _) found

theorem hotplug_event_kept_rebirth :
    ((rebirth []).1.devs 0).inUse = true ∧
      ((rebirth []).1.devs 0).pdev = some (cardAt 2 1 ambaPciVirtioDeviceId) :=
  (hotplug_event_kept ⟨1000, 1⟩ (rebirth []).1 (rebirth []).2 (rebirth_run [] (by rfl)) 0
    (cardAt 2 1 ambaPciVirtioDeviceId)
    (((rebirth []).2 0).bind Occupant.found |>.getD {}) (by decide) (Or.inr (by decide))).1
    (by decide)

/-- The card comes back after its boot timeout: its ADD is handled and leaves the slot without a
device. -/
theorem hotplug_event_kept_lateBoot :
    ∃ s buses pdev found, HotplugRun ⟨1000, 1⟩ s buses ∧ buses 0 = some ⟨pdev, some found⟩ ∧
      IsSupported pdev ∧ ¬ ((s.devs 0).inUse = true ∧ (s.devs 0).pdev = some pdev) :=
  ⟨(rebirth timeoutEvents).1, (rebirth timeoutEvents).2, cardAt 2 1 ambaPciVirtioDeviceId,
    ((rebirth timeoutEvents).2 0).bind Occupant.found |>.getD {},
    rebirth_run timeoutEvents (by rfl), by decide, Or.inr (by decide), by decide⟩

end AmbaPci

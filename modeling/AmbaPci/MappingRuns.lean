import AmbaPci.BootMappings
import AmbaPci.HotplugEvents

set_option autoImplicit false

/- The boot mappings over whole runs: hotplug events as the buses allow them, between all other
steps of the driver. -/
namespace AmbaPci

open Interaction Interaction.Prog Interaction.Machine

/-- Every slot entry agrees with the histories, and of a device that no slot names every attachment
is over. -/
structure AllRecorded (s : Platform) (hist : Histories) : Prop where
  slots : ∀ index, SlotRecord (s.devs index) hist
  buses : ∀ index pdev, (s.devs index).pdev = some pdev → pdev.bus = (pciePhysicalSlots index).bus
  closed : ∀ pdev, (∀ index, (s.devs index).pdev ≠ some pdev) → Closed (hist pdev)

variable {s s' : Platform} {e e' : Entry} {hist hist' : Histories} {index : Fin ambaPciDevMax}
variable {pdev : PciDev}

theorem AllRecorded.setDev (all : AllRecorded s hist)
    (records : Records (s.devs index) hist e' hist')
    (place : ∀ pdev, e'.pdev = some pdev → pdev.bus = (pciePhysicalSlots index).bus) :
    AllRecorded (s.setDev index e') hist' where
  slots other := by
    by_cases same : other = index
    · rw [same, Platform.setDev_same]
      exact records.slot
    · rw [Platform.setDev_other s index other e' same]
      apply (all.slots other).frame
      intro d here
      have bus := all.buses other d here
      apply records.others
      · intro named
        exact same (pciePhysicalSlots_bus_injective (bus.symm.trans (all.buses index d named)))
      · intro named
        exact same (pciePhysicalSlots_bus_injective (bus.symm.trans (place d named)))
  buses other d named := by
    by_cases same : other = index
    · rw [same] at named ⊢
      rw [Platform.setDev_same] at named
      exact place d named
    · rw [Platform.setDev_other s index other e' same] at named
      exact all.buses other d named
  closed d absent := by
    have gone : e'.pdev ≠ some d := by
      have here := absent index
      rwa [Platform.setDev_same] at here
    by_cases named : (s.devs index).pdev = some d
    · exact records.closed d named gone
    · rw [records.others d named gone]
      apply all.closed
      intro other
      by_cases same : other = index
      · rw [same]
        exact named
      · have apart := absent other
        rwa [Platform.setDev_other s index other e' same] at apart

/-- A section that keeps the device of its entry. -/
theorem AllRecorded.kept (all : AllRecorded s hist) (records : Records (s.devs index) hist e' hist')
    (same : e'.pdev = (s.devs index).pdev) : AllRecorded (s.setDev index e') hist' := by
  apply all.setDev records
  rw [same]
  exact all.buses index

theorem AllRecorded.congr (all : AllRecorded s hist) (devs : s'.devs = s.devs) :
    AllRecorded s' hist := by
  constructor
  · rw [devs]
    exact all.slots
  · rw [devs]
    exact all.buses
  · rw [devs]
    exact all.closed

/-- A device of a slot that names none is in no slot. -/
theorem AllRecorded.absent (all : AllRecorded s hist) (free : (s.devs index).pdev = none)
    (bus : pdev.bus = (pciePhysicalSlots index).bus) (other : Fin ambaPciDevMax) :
    (s.devs other).pdev ≠ some pdev := by
  intro named
  have same := pciePhysicalSlots_bus_injective ((all.buses other pdev named).symm.trans bus)
  rw [same, free] at named
  cases named

theorem allRecorded_init (procRoot : Bool) :
    AllRecorded (platformInit procRoot) fun _ => [] where
  slots _ := ⟨fun _ => rfl, fun _ none => (nomatch none), fun _ _ none => (nomatch none),
    fun _ none => nomatch none⟩
  buses _ _ none := nomatch none
  closed _ _ := .nil

/-! The sections on the table -/

theorem queryDevs_recorded (slots : List (Fin ambaPciDevMax)) (all : AllRecorded s hist) :
    historyMachine.wp (fun _ _ => True) (fun result hist' => AllRecorded result.2 hist')
      (queryDevs slots s) hist := by
  induction slots generalizing s hist with
  | nil => exact history_done all
  | cons slot rest ih =>
      apply wp_seq (wp_returns (pcieQueryDevInfoLocked_records slot.val (all.slots slot)))
      intro first hist₁ ended
      have change := (pcieQueryDevInfoLocked_returns ended.2).1
      apply wp_seq (ih (all.kept ended.1 change.pdev))
      intro later hist₂ all₂
      exact history_done all₂

/-- A device is attached to a slot that names none. -/
theorem AllRecorded.attached (all : AllRecorded s hist) (free : (s.devs index).pdev = none)
    (bus : pdev.bus = (pciePhysicalSlots index).bus) (named : e'.pdev = some pdev)
    (unmapped : e'.bootMemBase = none) (usable : e'.state = .disconnected → BarUsable pdev e') :
    AllRecorded (s.setDev index e') (hist.push pdev .got) := by
  have closed := all.closed pdev (all.absent free bus)
  have only : ∀ d, e'.pdev = some d → d = pdev := by
    intro d here
    rw [named] at here
    exact (Option.some.inj here).symm
  apply all.setDev
  · constructor
    · constructor
      · exact fun _ => unmapped
      · intro d here _
        rw [only d here, Histories.push_same]
        exact ⟨hist pdev, closed, rfl⟩
      · intro d base _ live
        rw [unmapped] at live
        cases live
      · intro d here idle
        rw [only d here]
        exact usable idle
    · intro d here _
      rw [free] at here
      cases here
    · intro d _ apart
      apply Histories.push_other
      intro same
      rw [same] at apart
      exact apart named
  · intro d here
    rw [only d here]
    exact bus

/-- Fields that the histories have nothing to do with are set. -/
theorem AllRecorded.updated (all : AllRecorded s hist) (named : e'.pdev = (s.devs index).pdev)
    (base : e'.bootMemBase = (s.devs index).bootMemBase)
    (bar : e'.bootBar = (s.devs index).bootBar) (length : e'.bootLen = (s.devs index).bootLen)
    (state : e'.state = .disconnected → (s.devs index).state = .disconnected) :
    AllRecorded (s.setDev index e') hist := by
  have record := (all.slots index).congr named base bar length state
  exact all.kept (.kept record named fun _ _ => rfl) named

theorem pcieInitSlot_recorded (all : AllRecorded s hist) (free : (s.devs index).pdev = none)
    (bus : pdev.bus = (pciePhysicalSlots index).bus) :
    historyMachine.wp (fun _ _ => True) (fun made hist' => AllRecorded made.2 hist')
      (pcieInitSlot pdev index s) hist := by
  have nodes := (pcieCreateProcNodes_calls s.procRoot (s.devs index) index.val).mono
    fun _ => Op.ProcFile.unrecorded
  apply wp_seq (wp_returns (unrecorded_wp nodes hist))
  intro result hist₁ ended
  obtain ⟨ret, e⟩ := result
  obtain ⟨same, returned⟩ := ended
  rw [same]
  dsimp only
  split
  · rename_i failed
    apply history_done
    rcases pcieCreateProcNodes_returns returned with ⟨zero, -⟩ | ⟨-, -, rfl | ⟨name, rfl⟩⟩
    · exact absurd zero failed
    · exact all.updated rfl rfl rfl rfl id
    · exact all.updated rfl rfl rfl rfl id
  · apply history_perform; intro _
    apply history_done
    refine (all.attached free bus ?_ ?_ fun _ => ?_).congr rfl
    · rfl
    · rfl
    · exact Or.inl (Or.inl (show (-1 : Int) < 0 by decide))

theorem pcieHandleAddLocked_recorded (all : AllRecorded s hist)
    (bare : ∀ index, (s.devs index).inUse = false → (s.devs index).pdev = none)
    (met : ReconnectsDetached s (.add pdev)) :
    historyMachine.wp (fun _ _ => True) (fun s' hist' => AllRecorded s' hist')
      (pcieHandleAddLocked pdev s) hist := by
  unfold pcieHandleAddLocked
  split
  · exact history_done all
  · rename_i slotId found
    have bus := getPciSlotId_bus found
    split
    · rename_i used
      split
      · exact history_done all
      · rename_i booting
        split
        · rename_i card
          have free := met slotId found used (Decidable.not_not.mp booting) card
          apply history_perform; intro _
          apply history_done
          apply all.attached free bus rfl
          · exact (all.slots slotId).bare free
          · exact fun impossible => nomatch impossible
        · exact history_done all
    · rename_i unused
      have free := bare slotId (by simpa using unused)
      have made := pcieInitSlot_recorded all free bus
      split
      · apply wp_seq made
        intro result hist₁ all₁
        obtain ⟨ret, s₁⟩ := result
        dsimp only at all₁ ⊢
        split
        · exact history_done all₁
        · apply history_done
          exact all₁.updated rfl rfl rfl rfl fun impossible => nomatch impossible
      · split
        · apply wp_seq made
          intro result hist₁ all₁
          exact history_done all₁
        · exact history_done all

theorem pcieHandleDelLocked_recorded (pdev : PciDev) (all : AllRecorded s hist) :
    historyMachine.wp (fun _ _ => True) (fun s' hist' => AllRecorded s' hist')
      (pcieHandleDelLocked pdev s) hist := by
  unfold pcieHandleDelLocked
  split
  · exact history_done all
  · rename_i slotId _
    split
    · exact history_done all
    · rename_i used
      split
      · apply wp_seq (pcieEntryDetachPdev_records (all.slots slotId))
        intro e' hist₁ ended
        apply history_done
        apply all.setDev ended.1
        intro d named
        rw [ended.2] at named
        unfold detached at named
        split at named
        · exact all.buses slotId d named
        · cases named
      · apply wp_seq (wp_returns (pcieReleaseDev_records (all.slots slotId)))
        intro e' hist₁ ended
        have after := pcieReleaseDev_returns ended.2
        rw [if_pos (by simpa using used)] at after
        apply history_done
        apply all.setDev ended.1
        intro d named
        rw [after] at named
        cases named

/-! Runs -/

/-- ADD when a device appears on a bus and DEL when it disappears, between all other steps of the
driver, with what is done to each device recorded from module init on. -/
inductive MapRun (t : Timing) : Platform → Buses → Histories → Prop
  | load {present : List PciDev} {procRoot : Bool} {s : Platform} {hist : Histories}
      (single : OnePerSlot present)
      (ran : historyMachine.Steps
        (pcieEnumerateExistedDevs present (platformInit procRoot), fun _ => []) (.done s, hist)) :
      MapRun t s (Buses.atLoad present) hist
  | add {s s' : Platform} {buses : Buses} {hist hist' : Histories} {pdev : PciDev}
      (before : MapRun t s buses hist) (absent : buses.Vacated pdev)
      (step : SectionStep historyMachine t (s, hist) (.add pdev) (s', hist')) :
      MapRun t s' (buses.plug pdev s) hist'
  | del {s s' : Platform} {buses : Buses} {hist hist' : Histories} {pdev : PciDev}
      (before : MapRun t s buses hist) (present : buses.Carries pdev)
      (step : SectionStep historyMachine t (s, hist) (.del pdev) (s', hist')) :
      MapRun t s' (buses.unplug pdev) hist'
  | own {s s' : Platform} {buses : Buses} {hist hist' : Histories} {event : Event}
      (before : MapRun t s buses hist) (quiet : event.isHotplug = false)
      (step : SectionStep historyMachine t (s, hist) event (s', hist')) : MapRun t s' buses hist'

variable {t : Timing} {buses : Buses} {event : Event}

theorem MapRun.reachable (run : MapRun t s buses hist) : Reachable anyReply t s := by
  induction run with
  | @load present procRoot s hist single ran =>
      exact (Reachable.init procRoot).step (.enumerate ran.returns)
  | add before absent step ih => exact ih.step step.locked
  | del before present step ih => exact ih.step step.locked
  | own before quiet step ih => exact ih.step step.locked

/-- A slot only names the device on its bus. -/
def NamesCarried (s : Platform) (buses : Buses) : Prop :=
  ∀ index d, (s.devs index).pdev = some d → (buses index).map Occupant.pdev = some d

theorem AddOutcome.named {mayFail : Prop} {id : BitVec 32}
    (outcome : AddOutcome mayFail pdev index id e e') :
    e'.pdev = e.pdev ∨ e'.pdev = some pdev := by
  cases outcome with
  | ignored used untaken => exact Or.inl rfl
  | reconnected used booting card => exact Or.inr rfl
  | connected free card => exact Or.inr rfl
  | initialized free card unbooted => exact Or.inr rfl
  | unsupported free unbooted other => exact Or.inl rfl
  | failed failable free card e' undone =>
      rcases undone with rfl | ⟨name, rfl⟩
      · exact Or.inl rfl
      · exact Or.inl rfl

/-- Only a device of the slot's bus is ever put into a slot. -/
theorem pcieHandleAddLocked_named (returned : Returns anyReply (pcieHandleAddLocked pdev s) s')
    (index : Fin ambaPciDevMax) :
    (s'.devs index).pdev = (s.devs index).pdev ∨
      (s'.devs index).pdev = some pdev ∧ pdev.bus = (pciePhysicalSlots index).bus := by
  rcases pcieHandleAddLocked_returns returned with ⟨-, rfl⟩ | ⟨slot, e', found, outcome, devs, -⟩
  · exact Or.inl rfl
  · rw [devs]
    by_cases same : index = slot
    · rw [same, Platform.setDev_same]
      exact outcome.named.imp_right fun named => ⟨named, getPciSlotId_bus found⟩
    · rw [Platform.setDev_other s slot index e' same]
      exact Or.inl rfl

theorem NamesCarried.added (named : NamesCarried s buses) (absent : buses.Vacated pdev)
    (returned : Returns anyReply (pcieHandleAddLocked pdev s) s') :
    NamesCarried s' (buses.plug pdev s) := by
  intro index d here
  unfold Buses.plug
  rcases pcieHandleAddLocked_named returned index with kept | ⟨now, bus⟩
  · rw [kept] at here
    have before := named index d here
    rw [if_neg]
    · exact before
    · intro bus
      rw [absent index bus] at before
      cases before
  · rw [now] at here
    rw [if_pos bus]
    exact here

theorem NamesCarried.removed (named : NamesCarried s buses)
    (bare : ∀ index, (s.devs index).inUse = false → (s.devs index).pdev = none)
    (returned : Returns anyReply (pcieHandleDelLocked pdev s) s') :
    NamesCarried s' (buses.unplug pdev) := by
  intro index d here
  unfold Buses.unplug
  rcases pcieHandleDelLocked_returns returned with ⟨nowhere, rfl⟩ | ⟨slot, e', found, outcome, rfl⟩
  · rw [if_neg]
    · exact named index d here
    · intro bus
      rw [← getPciSlotId_eq_some_iff, nowhere] at bus
      cases bus
  · have bus := getPciSlotId_bus found
    by_cases same : index = slot
    · rw [same, Platform.setDev_same] at here
      have none : e'.pdev = none := by
        cases outcome with
        | ignored free => exact bare slot free
        | detached used booting =>
            unfold detached
            split
            · rename_i none
              simpa using none
            · rfl
        | released used settled => rfl
      rw [none] at here
      cases here
    · rw [Platform.setDev_other s slot index e' same] at here
      rw [if_neg]
      · exact named index d here
      · exact fun other => same (pciePhysicalSlots_bus_injective (other.symm.trans bus))

/-- The scan puts only devices it has found into slots. -/
theorem handleAdds_named (pdevs : List PciDev) {d : PciDev}
    (returned : Returns anyReply (handleAdds pdevs s) s')
    (here : (s'.devs index).pdev = some d) :
    (s.devs index).pdev = some d ∨ d ∈ pdevs ∧ d.bus = (pciePhysicalSlots index).bus := by
  induction pdevs generalizing s with
  | nil =>
      cases (returns_done_iff _ _).mp returned
      exact Or.inl here
  | cons pdev rest ih =>
      obtain ⟨s₁, first, returned⟩ := (returns_bind_iff _ _ _).mp returned
      rcases ih returned with before | ⟨inside, bus⟩
      · rcases pcieHandleAddLocked_named first index with kept | ⟨now, bus⟩
        · exact Or.inl (kept ▸ before)
        · have same : pdev = d := Option.some.inj (now.symm.trans before)
          rw [same] at bus ⊢
          exact Or.inr ⟨List.mem_cons_self, bus⟩
      · exact Or.inr ⟨List.mem_cons_of_mem _ inside, bus⟩

theorem namesCarried_atLoad {present : List PciDev} {procRoot : Bool} (single : OnePerSlot present)
    (scan : Returns anyReply (pcieEnumerateExistedDevs present (platformInit procRoot)) s) :
    NamesCarried s (Buses.atLoad present) := by
  intro index d here
  rw [pcieEnumerateExistedDevs_eq] at scan
  rcases handleAdds_named (scanned present) scan here with none | ⟨inside, bus⟩
  · cases none
  · have there := ((mem_scanned_iff present d).mp inside).1
    unfold Buses.atLoad
    cases found : present.find? fun pdev => pdev.bus = (pciePhysicalSlots index).bus with
    | none =>
        rw [List.find?_eq_none] at found
        exact absurd bus (by simpa using found d there)
    | some first =>
        have same := single index first (List.mem_of_find?_eq_some found) d there
          (by simpa using List.find?_some found) bus
        rw [same]
        rfl

/-- The run lemma for the buses. -/
theorem MapRun.namesCarried (run : MapRun t s buses hist) : NamesCarried s buses := by
  induction run with
  | load single ran => exact namesCarried_atLoad single ran.returns
  | add before absent step ih =>
      cases step with
      | add ran => exact ih.added absent ran.returns
  | del before present step ih =>
      cases step with
      | del ran => exact ih.removed before.reachable.bare ran.returns
  | own before quiet step ih =>
      intro index d here
      rw [(step.locked.ownMoves quiet index).pdev] at here
      exact ih index d here

/-- A device that appears on a vacated bus finds its slot without one. -/
theorem NamesCarried.reconnectsDetached (named : NamesCarried s buses)
    (absent : buses.Vacated pdev) : ReconnectsDetached s (.add pdev) := by
  intro index found _ _ _
  cases attached : (s.devs index).pdev with
  | none => rfl
  | some d =>
      have carried := named index d attached
      rw [absent index (getPciSlotId_bus found)] at carried
      cases carried

theorem handleAdds_recorded (pdevs : List PciDev) (reachable : Reachable anyReply t s)
    (all : AllRecorded s hist) (unbooted : ∀ pdev ∈ pdevs, isVirtioCard pdev = false) :
    historyMachine.wp (fun _ _ => True) (fun s' hist' => AllRecorded s' hist')
      (handleAdds pdevs s) hist := by
  induction pdevs generalizing s hist with
  | nil => exact history_done all
  | cons pdev rest ih =>
      have met : ReconnectsDetached s (.add pdev) := by
        intro index _ _ _ card
        rw [unbooted pdev List.mem_cons_self] at card
        cases card
      apply wp_seq (wp_returns (pcieHandleAddLocked_recorded all reachable.bare met))
      intro s₁ hist₁ added
      have step : LockedStep anyReply t s (.add pdev) s₁ := .add added.2
      exact ih (reachable.step step) added.1 fun other later =>
        unbooted other (List.mem_cons_of_mem _ later)

/-- The module's own scan looks for boot ROMs only. -/
theorem pcieEnumerateExistedDevs_recorded (present : List PciDev) (procRoot : Bool) :
    historyMachine.wp (fun _ _ => True) (fun s' hist' => AllRecorded s' hist')
      (pcieEnumerateExistedDevs present (platformInit procRoot)) fun _ => [] := by
  rw [pcieEnumerateExistedDevs_eq]
  have initial : Reachable anyReply ⟨0, 0⟩ (platformInit procRoot) := .init procRoot
  apply handleAdds_recorded (scanned present) initial (allRecorded_init procRoot)
  intro pdev inside
  cases card : isVirtioCard pdev with
  | false => rfl
  | true =>
      have rom := ((mem_scanned_iff present pdev).mp inside).2.1
      exact absurd rom (not_isBootRom_of_virtio card)

/-- The step lemma. -/
theorem SectionStep.recorded (step : SectionStep historyMachine t (s, hist) event (s', hist'))
    (reachable : Reachable anyReply t s) (met : ReconnectsDetached s event)
    (all : AllRecorded s hist) : AllRecorded s' hist' := by
  cases step with
  | add ran => exact wp_post (pcieHandleAddLocked_recorded all reachable.bare met) ran
  | @del _ _ _ _ pdev ran => exact wp_post (pcieHandleDelLocked_recorded pdev all) ran
  | query ran => exact wp_post (queryDevs_recorded (List.finRange ambaPciDevMax) all) ran
  | @devInfo _ _ _ _ index info ran =>
      have queried : historyMachine.wp (fun _ _ => True)
          (fun result hist' => AllRecorded result.2 hist') (pcieDevInfoReadLocked index s)
          hist := by
        apply wp_seq (wp_returns (pcieQueryDevInfoLocked_records index.val (all.slots index)))
        intro result hist₁ ended
        have change := (pcieQueryDevInfoLocked_returns ended.2).1
        exact history_done (all.kept ended.1 change.pdev)
      exact wp_post queried ran
  | @xferFirmware _ _ _ req index ret e' accepted addressed ran =>
      have records := wp_post (pcieXferFirmwareLocked_records t req (all.slots index)) ran
      have named : e'.pdev = (s.devs index).pdev := by
        rcases pcieXferFirmwareLocked_returns ran.returns with
          ⟨-, change, -⟩ | ⟨-, -, -, -, mapped, change, rfl⟩
        · exact change.pdev
        · exact change.pdev
      exact all.kept records named
  | @reboot _ _ index =>
      unfold pcieRebootLocked
      split
      · exact all.updated rfl rfl rfl rfl id
      · split
        · exact all.updated rfl rfl rfl rfl id
        · exact all.updated rfl rfl rfl rfl fun impossible => nomatch impossible
  | timerExpires armed => exact all.updated rfl rfl rfl rfl id
  | workStarts queued returned => exact all.updated rfl rfl rfl rfl id
  | @workRuns _ _ index started =>
      unfold pcieBootTimeoutFn
      split
      · exact all.updated rfl rfl rfl rfl fun impossible => nomatch impossible
      · exact all.updated rfl rfl rfl rfl id

/-- The run lemma. -/
theorem MapRun.recorded (run : MapRun t s buses hist) : AllRecorded s hist := by
  induction run with
  | @load present procRoot s hist single ran =>
      exact wp_post (pcieEnumerateExistedDevs_recorded present procRoot) ran
  | add before absent step ih =>
      exact step.recorded before.reachable (before.namesCarried.reconnectsDetached absent) ih
  | del before present step ih => exact step.recorded before.reachable trivial ih
  | @own s s' buses hist hist' event before quiet step ih =>
      have met : ReconnectsDetached s event := by
        cases event with
        | add pdev => cases quiet
        | _ => trivial
      exact step.recorded before.reachable met ih

/-- In every run a mapped slot names the device on its bus, its cache the first memory BAR of that
device, and its mapping is the one made of that BAR since the device was attached. A device is put
only after its mapping was undone, and an attached one has been mapped once or not at all. Making
sure of the mapping succeeds exactly when it leaves one, and never ends in `-ENXIO`. -/
theorem boot_mapping_current (t : Timing) (s : Platform) (buses : Buses) (hist : Histories)
    (run : MapRun t s buses hist) :
    (∀ index base, (s.devs index).bootMemBase = some base → ∃ pdev bar earlier,
      (s.devs index).pdev = some pdev ∧ (buses index).map Occupant.pdev = some pdev ∧
      FirstMemBar pdev bar ∧ (s.devs index).bootBar = (bar.val : Int) ∧
      (s.devs index).bootLen = pciResourceLen pdev bar ∧ Closed earlier ∧
      hist pdev = .mapped (bar.val : Int) (pciResourceLen pdev bar) base :: .got :: earlier) ∧
    (∀ index pdev, (s.devs index).pdev = some pdev → (s.devs index).bootMemBase = none →
      ∃ earlier, Closed earlier ∧ hist pdev = .got :: earlier) ∧
    (∀ pdev, (∀ index, (s.devs index).pdev ≠ some pdev) → Closed (hist pdev)) ∧
    ∀ pdev e result hist', historyMachine.Steps (pcieBootBarEnsureMapped pdev e, hist)
        (.done result, hist') →
      (result.1 = 0 ↔ result.2.bootMemBase.isSome = true) ∧ result.1 ≠ -enxio := by
  have all := run.recorded
  refine ⟨fun index base live => ?_, fun index pdev => (all.slots index).attached pdev,
    all.closed, fun pdev e result hist' ran => ?_⟩
  · cases attached : (s.devs index).pdev with
    | none =>
        rw [(all.slots index).bare attached] at live
        cases live
    | some pdev =>
        obtain ⟨⟨bar, found, number, length⟩, earlier, closed, past⟩ :=
          (all.slots index).mapped pdev base attached live
        rw [number, length] at past
        exact ⟨pdev, bar, earlier, rfl, run.namesCarried index pdev attached,
          firstMemBar_of_find found, number, length, closed, past⟩
  · exact wp_post (pcieBootBarEnsureMapped_zero_iff pdev e hist) ran

/-! A card that is added and queried -/

/-- The kernel in which nothing fails. -/
def historyDriver : Driver Op Op.Reply Histories Empty where
  answer hist op := (promptReply op).map fun reply => (reply, recorded hist op reply)
  interfere impossible := nomatch impossible

theorem historyDriver_sound : historyDriver.Sound historyMachine where
  answer hist op reply hist' answered := by
    obtain ⟨reply', -, same⟩ := Option.map_eq_some_iff.mp answered
    cases same
    rfl
  interfere impossible := nomatch impossible

/-- The table, the buses and the histories after a list of events, when the run can take it. -/
def driveMaps (t : Timing) :
    List Event → Platform × Buses × Histories → Option (Platform × Buses × Histories)
  | [], config => some config
  | event :: rest, (s, buses, hist) =>
      match driveSection historyDriver t (s, hist) event with
      | none => none
      | some (s', hist') =>
          match event with
          | .add pdev =>
              if buses.Vacated pdev then driveMaps t rest (s', buses.plug pdev s, hist') else none
          | .del pdev =>
              if buses.Carries pdev then driveMaps t rest (s', buses.unplug pdev, hist') else none
          | .enumerate _ => none
          | _ => driveMaps t rest (s', buses, hist')

theorem driveMaps_run (events : List Event) {buses' : Buses} (run : MapRun t s buses hist)
    (driven : driveMaps t events (s, buses, hist) = some (s', buses', hist')) :
    MapRun t s' buses' hist' := by
  induction events generalizing s buses hist with
  | nil =>
      cases driven
      exact run
  | cons event rest ih =>
      simp only [driveMaps] at driven
      split at driven
      · cases driven
      · rename_i next hist₁ first
        have step := driveSection_step historyDriver_sound first
        cases event with
        | add pdev =>
            simp only [Option.ite_none_right_eq_some] at driven
            exact ih (run.add driven.1 step) driven.2
        | del pdev =>
            simp only [Option.ite_none_right_eq_some] at driven
            exact ih (run.del driven.1 step) driven.2
        | enumerate present => cases driven
        | _ => exact ih (run.own rfl step) driven

theorem MapRun.empty (t : Timing) :
    MapRun t (platformInit true) (Buses.atLoad []) fun _ => [] := by
  have scanned : historyDriver.eval (pcieEnumerateExistedDevs [] (platformInit true))
      (fun _ => []) = some (platformInit true, fun _ => []) := by rfl
  exact .load (fun _ _ inside => nomatch inside) (historyDriver_sound.eval scanned)

/-- Where a list of events ends, from module init without a card. -/
def mapsAfter (events : List Event) : Platform × Buses × Histories :=
  (driveMaps ⟨1000, 1⟩ events (platformInit true, Buses.atLoad [], fun _ => [])).getD
    (platformInit true, Buses.atLoad [], fun _ => [])

theorem mapsAfter_run (events : List Event) (ran : (driveMaps ⟨1000, 1⟩ events
    (platformInit true, Buses.atLoad [], fun _ => [])).isSome = true) :
    MapRun ⟨1000, 1⟩ (mapsAfter events).1 (mapsAfter events).2.1 (mapsAfter events).2.2 := by
  obtain ⟨⟨s, buses, hist⟩, found⟩ := Option.isSome_iff_exists.mp ran
  simp only [mapsAfter, found, Option.getD_some]
  exact driveMaps_run events (.empty _) found

def queriedEvents : List Event := [.add (cardAt 1 1 ambaPciTargetDeviceId), .query]

theorem boot_mapping_current_queried :
    ((mapsAfter queriedEvents).1.devs 0).bootMemBase = some 0 ∧
      ∃ bar, FirstMemBar (cardAt 1 1 ambaPciTargetDeviceId) bar ∧
        ((mapsAfter queriedEvents).1.devs 0).bootBar = (bar.val : Int) := by
  have run := mapsAfter_run queriedEvents (by decide +kernel)
  have live : ((mapsAfter queriedEvents).1.devs 0).bootMemBase = some 0 := by decide +kernel
  have here : ((mapsAfter queriedEvents).1.devs 0).pdev =
      some (cardAt 1 1 ambaPciTargetDeviceId) := by decide +kernel
  obtain ⟨pdev, bar, earlier, named, -, first, number, -⟩ :=
    (boot_mapping_current ⟨1000, 1⟩ _ _ _ run).1 0 0 live
  rw [here] at named
  rw [← Option.some.inj named] at first
  exact ⟨live, bar, first, number⟩

/-- What was done to the card of bus 1 once it has booted, left, and come back as another device. -/
example : (mapsAfter (rebirthEvents [])).2.2 (cardAt 1 1 ambaPciTargetDeviceId) =
    [.put, .unmapped 0, .mapped 0 65536 0, .got] := by decide +kernel

end AmbaPci

import AmbaPci.ModuleAnswers

set_option autoImplicit false

/- The module from load to unload, any number of times: whatever fails and whatever the other
threads do meanwhile, everything is given back, once and in time. -/
namespace AmbaPci

open Interaction Interaction.Prog Interaction.Machine Interaction.Ledger

variable {regs : Registrations} {w w' : ModuleWorld} {t : Timing} {users : Bool} {event : Event}
variable {index : Fin ambaPciDevMax} {s s' : Platform} {e : Entry}

/-! The module's init -/

theorem initDevs_calm (slots : List (Fin ambaPciDevMax)) (calm : Calm regs w)
    (quiet : regs.Quiet) :
    (moduleMachine t users).wp (ModuleReady t users) (fun _ w' => Calm regs w')
      (ModuleCode.initDevs slots) w := by
  induction slots generalizing w with
  | nil => exact calm_done calm quiet fun _ here => here
  | cons index rest ih =>
      apply calm_call (.initDelayedWork index) calm quiet trivial (ready_unlisted _ rfl rfl rfl)
      intro _ w₁ calm₁
      apply calm_call (.clearId index) calm₁ quiet trivial (ready_unlisted _ rfl rfl rfl)
      intro _ w₂ calm₂
      exact ih calm₂

/-- The registrations of the loaded module, with or without its directory in proc. -/
def loadedRegs (procRoot : Bool) : Registrations where
  mutex := true
  chrdev := true
  deviceClass := true
  cdev := true
  device := true
  procRoot := procRoot
  notifier := true

/-- How init ends: the module is registered, or holds nothing. -/
def Initialized (t : Timing) (ret : Int) (w : ModuleWorld) : Prop :=
  Served t true w ∧
    ((ret = 0 ∧ ∃ procRoot, Running (loadedRegs procRoot) w) ∨ (ret < 0 ∧ Calm {} w))

theorem undoInit_calm {ret : Int} {chrdev cdev : Bool} (calm : Calm regs w)
    (quiet : regs.notifier = false) (locked : regs.mutex = true)
    (inClass : regs.device = true → regs.deviceClass = true) (hasRegion : chrdev = regs.chrdev)
    (hasCdev : cdev = regs.cdev) (failed : ret < 0) :
    (moduleMachine t true).wp (ModuleReady t true) (Initialized t)
      (ModuleCode.undoInit chrdev cdev false ret) w := by
  subst hasRegion hasCdev
  have unregistered : ModuleCode.undoInit regs.chrdev regs.cdev false ret =
      ModuleCode.removeRegistrations regs.chrdev regs.cdev >>= fun _ => pure ret := rfl
  rw [unregistered]
  apply wp_seq (removeRegistrations_calm calm quiet locked inClass)
  intro _ w₁ calm₁
  exact calm_done calm₁ ⟨rfl, Or.inr rfl⟩ fun w' here =>
    ⟨here.served rfl (Or.inr rfl), Or.inr ⟨failed, here⟩⟩

/-! When something can be registered -/

theorem classCreate_ready (fresh : regs.deviceClass = false) :
    moduleLedger.Ready regs.set .classCreate where
  used := Set.empty_subset _
  released := Set.empty_subset _
  barred := Set.disjoint_singleton_left.mpr (by simp [Registrations.has, fresh])

theorem allocChrdevRegion_ready (fresh : regs.chrdev = false) :
    moduleLedger.Ready regs.set .allocChrdevRegion where
  used := Set.empty_subset _
  released := Set.empty_subset _
  barred := Set.disjoint_singleton_left.mpr (by simp [Registrations.has, fresh])

theorem mutexInit_ready (fresh : regs.mutex = false) :
    moduleLedger.Ready regs.set .mutexInit where
  used := Set.empty_subset _
  released := Set.empty_subset _
  barred := Set.disjoint_singleton_left.mpr (by simp [Registrations.has, fresh])

theorem procMkdir_ready (fresh : regs.procRoot = false) :
    moduleLedger.Ready regs.set .procMkdir where
  used := Set.empty_subset _
  released := Set.empty_subset _
  barred := Set.disjoint_singleton_left.mpr (by simp [Registrations.has, fresh])

theorem cdevAdd_ready (fresh : regs.cdev = false) (region : regs.chrdev = true)
    (locked : regs.mutex = true) : moduleLedger.Ready regs.set .cdevAdd where
  used := by
    rintro _ (rfl | rfl)
    · exact region
    · exact locked
  released := Set.empty_subset _
  barred := Set.disjoint_singleton_left.mpr (by simp [Registrations.has, fresh])

theorem deviceCreate_ready (fresh : regs.device = false) (inClass : regs.deviceClass = true)
    (region : regs.chrdev = true) (added : regs.cdev = true) :
    moduleLedger.Ready regs.set .deviceCreate where
  used := by
    rintro _ (rfl | rfl | rfl)
    · exact inClass
    · exact region
    · exact added
  released := Set.empty_subset _
  barred := Set.disjoint_singleton_left.mpr (by simp [Registrations.has, fresh])

theorem busRegisterNotifier_ready (fresh : regs.notifier = false) (locked : regs.mutex = true) :
    moduleLedger.Ready regs.set .busRegisterNotifier where
  used := Set.singleton_subset_iff.mpr locked
  released := Set.empty_subset _
  barred := Set.disjoint_singleton_left.mpr (by simp [Registrations.has, fresh])

/-- A registered module has nothing more to do for init than its scan. -/
theorem enumerate_running {procRoot : Bool} (running : Running (loadedRegs procRoot) w) :
    (moduleMachine t true).wp (ModuleReady t true) (Initialized t)
      (ModuleOp.perform .enumerateExistedDevs >>= fun _ => pure 0) w := by
  refine wp_perform (Running.stable (loadedRegs procRoot)) running ?_ ?_
  · intro w' running'
    refine ⟨⟨?_, Set.empty_subset _, Set.empty_disjoint _⟩, ?_, fun here => (nomatch here),
      fun here => (nomatch here), running'.served rfl⟩
    · exact Set.singleton_subset_iff.mpr (running'.mutex rfl)
    · intro _ present inner next held' ran
      exact wp_guard (pcieEnumerateExistedDevs_stocked present running'.stocked) ran
  · intro w' reply w'' running' answered
    obtain ⟨present, table, held, ran, rfl⟩ := answered
    have stocked := wp_post (pcieEnumerateExistedDevs_stocked present running'.stocked) ran
    have root : table.procRoot = w'.table.procRoot :=
      LockedStep.procRoot (t := t) (.enumerate ran.returns)
    have scanned : Running (loadedRegs procRoot) { w' with table, held } :=
      ⟨stocked, root.trans running'.procRoot, running'.deviceClass, running'.ctrlDev⟩
    exact wp_done (Running.stable (loadedRegs procRoot)) scanned fun w₃ here =>
      ⟨here.served rfl, Or.inl ⟨rfl, procRoot, here⟩⟩

/-- The run of init: each failure takes back what came before it. -/
theorem ambaPciPlatformInit_calm (calm : Calm {} w) :
    (moduleMachine t true).wp (ModuleReady t true) (Initialized t)
      ModuleCode.ambaPciPlatformInit w := by
  apply calm_perform .mutexInit calm ⟨rfl, Or.inr rfl⟩ trivial (mutexInit_ready rfl)
  intro _ w₁ calm₁
  apply wp_seq (initDevs_calm (List.finRange ambaPciDevMax) calm₁ ⟨rfl, Or.inl rfl⟩)
  intro _ w₂ calm₂
  apply calm_perform .clearNextDevId calm₂ ⟨rfl, Or.inl rfl⟩ trivial
    ⟨Set.empty_subset _, Set.empty_subset _, Set.empty_disjoint _⟩
  intro _ w₃ calm₃
  apply calm_perform .allocChrdevRegion calm₃ ⟨rfl, Or.inl rfl⟩ trivial
    (allocChrdevRegion_ready rfl)
  intro region w₄ calm₄
  split
  · rename_i failed
    have refused : Calm { mutex := true } w₄ := by
      have nonzero : ¬ region.val = 0 := by omega
      simpa only [Registrations.after, Registrations.assign, nonzero, decide_false] using calm₄
    exact undoInit_calm refused rfl rfl (fun none => nomatch none) rfl rfl failed
  · rename_i passed
    have granted : Calm { mutex := true, chrdev := true } w₄ := by
      have zero : region.val = 0 := by
        have bound := region.property
        omega
      simpa only [Registrations.after, Registrations.assign, zero, decide_true] using calm₄
    apply calm_perform .classCreate granted ⟨rfl, Or.inl rfl⟩ trivial (classCreate_ready rfl)
    intro created w₅ calm₅
    cases created with
    | some err =>
        exact undoInit_calm calm₅ rfl rfl (fun none => nomatch none) rfl rfl err.property
    | none =>
        apply calm_perform .cdevAdd calm₅ ⟨rfl, Or.inl rfl⟩ trivial (cdevAdd_ready rfl rfl rfl)
        intro added w₆ calm₆
        split
        · rename_i nonzero
          have refused : Calm { mutex := true, chrdev := true, deviceClass := true } w₆ := by
            simpa only [Registrations.after, Registrations.assign, nonzero, decide_false,
              Option.isNone_none] using calm₆
          exact undoInit_calm refused rfl rfl (fun none => nomatch none) rfl rfl
            (lt_of_le_of_ne added.property nonzero)
        · rename_i zero
          have granted : Calm { mutex := true, chrdev := true, deviceClass := true, cdev := true }
              w₆ := by
            simpa only [Registrations.after, Registrations.assign, Decidable.not_not.mp zero,
              decide_true, Option.isNone_none] using calm₆
          apply calm_perform .deviceCreate granted ⟨rfl, Or.inl rfl⟩ trivial
            (deviceCreate_ready rfl rfl rfl rfl)
          intro created w₇ calm₇
          cases created with
          | some err =>
              exact undoInit_calm calm₇ rfl rfl (fun none => nomatch none) rfl rfl err.property
          | none =>
              apply calm_perform .procMkdir calm₇ ⟨rfl, Or.inl rfl⟩ trivial (procMkdir_ready rfl)
              intro made w₈ calm₈
              apply calm_perform .busRegisterNotifier calm₈ ⟨rfl, Or.inl rfl⟩ trivial
                (busRegisterNotifier_ready rfl rfl)
              intro notified w₉ calm₉
              split
              · rename_i nonzero
                have refused : Calm { loadedRegs made with notifier := false } w₉ := by
                  simpa only [Registrations.after, Registrations.assign, nonzero, decide_false,
                    Option.isNone_none, loadedRegs] using calm₉
                exact undoInit_calm refused rfl rfl (fun _ => rfl) rfl rfl
                  (lt_of_le_of_ne notified.property nonzero)
              · rename_i zero
                have zero := Decidable.not_not.mp zero
                have registered : Calm (loadedRegs made) w₉ := by
                  simpa only [Registrations.after, Registrations.assign, zero, decide_true,
                    Option.isNone_none, loadedRegs] using calm₉
                rw [zero]
                exact enumerate_running registered.running

/-! The module's exit -/

/-- The works of the slots in `done` are over, and nothing starts them again: no notification comes
in, and no process has the character device open. -/
structure Stopped (regs : Registrations) (done : List (Fin ambaPciDevMax)) (w : ModuleWorld) :
    Prop where
  running : Running regs w
  idle : ∀ index ∈ done, (w.table.devs index).bootTimeoutWork = {}

theorem work_setDev {slot : Fin ambaPciDevMax} {work : DelayedWork}
    (idle : (s.devs index).bootTimeoutWork = work)
    (same : index = slot → e.bootTimeoutWork = work) :
    ((s.setDev slot e).devs index).bootTimeoutWork = work := by
  by_cases here : index = slot
  · rw [here, Platform.setDev_same]
    exact same here
  · rw [Platform.setDev_other s slot index e here]
    exact idle

/-- Only a firmware transfer starts a delayed work. -/
theorem SectionStep.idle {held held' : Set Resource} (possible : event.Possible false w)
    (quiet : Resource.notifier ∉ w.held)
    (step : SectionStep slotLedger.machine t (s, held) event (s', held'))
    (idle : (s.devs index).bootTimeoutWork = {}) : (s'.devs index).bootTimeoutWork = {} := by
  cases step with
  | add | del => exact absurd possible quiet
  | query | xferFirmware => exact nomatch possible.1
  | devInfo ran =>
      obtain ⟨⟨info, e'⟩, queried, returned⟩ := (returns_bind_iff _ _ _).mp ran.returns
      cases (returns_done_iff _ _).mp returned
      apply work_setDev idle
      rintro rfl
      rw [(pcieQueryDevInfoLocked_returns queried).1.work]
      exact idle
  | reboot =>
      apply work_setDev idle
      rintro rfl
      unfold pcieRebootLocked
      split
      · exact idle
      · split
        · exact idle
        · exact idle
  | timerExpires armed =>
      apply work_setDev idle
      rintro rfl
      rw [idle] at armed
      cases armed
  | workStarts queued returned =>
      apply work_setDev idle
      rintro rfl
      rw [idle] at queued
      cases queued
  | workRuns started =>
      apply work_setDev idle
      rintro rfl
      rw [idle] at started
      cases started

theorem Running.notifier (running : Running regs w) (quiet : regs.notifier = false) :
    Resource.notifier ∉ w.held := by
  rw [running.stocked.owned.whole]
  rintro (registered | slot)
  · rw [Registrations.mem_set, Registrations.has, quiet] at registered
    cases registered
  · obtain ⟨index, inside⟩ := Set.mem_iUnion.mp slot
    exact Entry.holds_ofSlot inside

theorem Stopped.stable (done : List (Fin ambaPciDevMax)) (quiet : regs.notifier = false) :
    (moduleMachine t false).Stable (Stopped regs done) := by
  rintro w w' stopped moved
  refine ⟨Running.stable regs w w' stopped.running moved, fun index inside => ?_⟩
  obtain ⟨event, possible, step, -, -⟩ := moved
  exact step.idle possible (stopped.running.notifier quiet) (stopped.idle index inside)

theorem SlotSound.works {e : Entry} (sound : SlotSound e) (work : DelayedWork) :
    SlotSound { e with bootTimeoutWork := work } := ⟨sound.unused, sound.mapped⟩

theorem Running.setWork (running : Running regs w) (work : DelayedWork) :
    Running regs (w.setWork index work) := by
  have sound := (running.stocked.slots index).works work
  exact ⟨running.stocked.moved rfl rfl rfl sound, running.procRoot, running.deviceClass,
    running.ctrlDev⟩

/-- Without the notifier, the rest stays registered. -/
theorem Running.unregistered (running : Running regs w) (there : regs.notifier = true) :
    Running { regs with notifier := false }
      { w with held := moduleLedger.after w.held .busUnregisterNotifier () } := by
  have fewer : regs.set \ {.notifier} = Registrations.set { regs with notifier := false } := by
    have own : ¬ Resource.notifier.OfSlot := id
    have assigned : (regs.set \ {.notifier}) ∪ ∅ = (regs.assign .notifier false).set :=
      Registrations.assign_false own
    rwa [Set.union_empty] at assigned
  have shared : {Resource.notifier} ⊆ regs.set := Set.singleton_subset_iff.mpr there
  have owned := running.stocked.owned.release shared
  have left : moduleLedger.after w.held .busUnregisterNotifier () = w.held \ {.notifier} :=
    Set.union_empty _
  rw [fewer] at owned
  rw [left]
  exact ⟨⟨Registrations.ownHoldings running.procRoot, owned, running.stocked.named,
    running.stocked.slots⟩, running.procRoot, running.deviceClass, running.ctrlDev⟩

/-- A call that runs no section, uses nothing and gives nothing back. -/
theorem Running.ready (running : Running regs w) (locked : regs.mutex = true) {op : ModuleOp}
    (ready : moduleLedger.Ready w.held op) (scan : op ≠ .enumerateExistedDevs)
    (release : op ≠ .releaseDevs) (finished : op ≠ .mutexDestroy) :
    ModuleReady t users w op where
  ready := ready
  scan here := absurd here scan
  release here := absurd here release
  finished here := absurd here finished
  served := running.served locked

/-- The works are stopped slot by slot, while those of the later slots may still run. -/
theorem cancelWorks_stopped (slots : List (Fin ambaPciDevMax)) {done : List (Fin ambaPciDevMax)}
    (stopped : Stopped regs done w) (quiet : regs.notifier = false) (locked : regs.mutex = true) :
    (moduleMachine t false).wp (ModuleReady t false)
      (fun _ w' => Stopped regs (slots.reverseAux done) w') (ModuleCode.cancelWorks slots) w := by
  induction slots generalizing done w with
  | nil => exact wp_done (Stopped.stable done quiet) stopped fun _ here => here
  | cons index rest ih =>
      refine wp_perform (Stopped.stable done quiet) stopped ?_ ?_
      · intro w' here
        exact here.running.ready locked
          ⟨Set.empty_subset _, Set.empty_subset _, Set.empty_disjoint _⟩ (fun same => nomatch same)
          (fun same => nomatch same) (fun same => nomatch same)
      · intro w' reply w'' here answered
        obtain ⟨-, rfl⟩ := answered
        apply ih
        refine ⟨here.running.setWork {}, ?_⟩
        intro slot inside
        cases inside with
        | head => exact congrArg Entry.bootTimeoutWork (Platform.setDev_same _ index _)
        | tail _ before => exact work_setDev (here.idle slot before) fun _ => rfl

theorem releaseDevs_idle (slots : List (Fin ambaPciDevMax)) (idle : NoWork s)
    (returned : Prog.Returns (fun _ _ => True) (releaseDevs slots s) s') :
    NoWork s' ∧ s'.procRoot = s.procRoot := by
  induction slots generalizing s with
  | nil =>
      cases (returns_done_iff _ _).mp returned
      exact ⟨idle, rfl⟩
  | cons index rest ih =>
      obtain ⟨e', released, returned⟩ := (returns_bind_iff _ _ _).mp returned
      have left := pcieReleaseDev_returns released
      have stopped : e'.bootTimeoutWork = {} := by
        rw [left]
        split
        · exact congrArg cancelDelayedWork (idle index)
        · exact idle index
      have idle' : NoWork (s.setDev index e') :=
        fun slot => work_setDev (idle slot) fun _ => stopped
      obtain ⟨idle₁, root⟩ := ih idle' returned
      exact ⟨idle₁, root⟩

/-- With every work stopped, the release leaves the module with its own registrations. -/
theorem releaseDevs_calm {post : Unit → ModuleWorld → Prop}
    {done : List (Fin ambaPciDevMax)} {next : ModuleCode Unit} (stopped : Stopped regs done w)
    (quiet : regs.notifier = false) (locked : regs.mutex = true) (all : ∀ index, index ∈ done)
    (resume : ∀ w', Calm regs w' →
      (moduleMachine t false).wp (ModuleReady t false) post next w') :
    (moduleMachine t false).wp (ModuleReady t false) post
      (ModuleOp.perform .releaseDevs >>= fun _ => next) w := by
  refine wp_perform (Stopped.stable done quiet) stopped ?_ ?_
  · intro w' here
    refine ⟨⟨?_, Set.empty_subset _, Set.empty_disjoint _⟩, fun same => (nomatch same), ?_,
      fun same => (nomatch same), here.running.served locked⟩
    · exact Set.singleton_subset_iff.mpr (here.running.mutex locked)
    · intro _ inner next held' ran
      exact wp_guard (ambaPciPlatformExitLocked_stocked here.running.stocked) ran
  · intro w' reply w'' here answered
    obtain ⟨table, held, ran, rfl⟩ := answered
    obtain ⟨stocked, free⟩ :=
      wp_post (ambaPciPlatformExitLocked_stocked here.running.stocked) ran
    obtain ⟨left, released, returned⟩ := (returns_bind_iff _ _ _).mp ran.returns
    cases (returns_done_iff _ _).mp returned
    obtain ⟨idle, root⟩ := releaseDevs_idle _ (fun index => here.idle index (all index)) released
    apply resume
    exact ⟨fun index => ⟨stocked.slots index, free index, idle index⟩, stocked.free free,
      root.trans here.running.procRoot, here.running.deviceClass, here.running.ctrlDev⟩

/-- The run of exit: nothing is left behind, whatever the works and the proc files did before. -/
theorem ambaPciPlatformExit_calm {procRoot : Bool} (running : Running (loadedRegs procRoot) w) :
    (moduleMachine t false).wp (ModuleReady t false) (fun _ w' => Served t false w' ∧ Calm {} w')
      ModuleCode.ambaPciPlatformExit w := by
  refine wp_perform (Running.stable (loadedRegs procRoot)) running ?_ ?_
  · intro w' here
    have registered : Resource.notifier ∈ w'.held := by
      rw [here.stocked.owned.whole]
      exact Or.inl rfl
    exact here.ready rfl ⟨Set.empty_subset _, Set.singleton_subset_iff.mpr registered,
      Set.empty_disjoint _⟩ (fun same => nomatch same) (fun same => nomatch same)
      (fun same => nomatch same)
  · intro w' reply w₁ here answered
    obtain ⟨-, rfl⟩ := answered
    have stopped : Stopped { loadedRegs procRoot with notifier := false } []
        { w' with held := moduleLedger.after w'.held .busUnregisterNotifier () } :=
      ⟨here.unregistered rfl, fun index impossible => nomatch impossible⟩
    apply wp_seq (cancelWorks_stopped (List.finRange ambaPciDevMax) stopped rfl rfl)
    intro _ w₂ stopped₂
    refine releaseDevs_calm stopped₂ rfl rfl ?_ ?_
    · intro index
      rw [List.reverseAux_eq, List.append_nil, List.mem_reverse]
      exact List.mem_finRange index
    · intro w₃ calm
      apply wp_mono (removeRegistrations_calm calm rfl rfl fun _ => rfl)
      intro _ w' here
      exact ⟨here.served rfl (Or.inr rfl), here⟩

/-! Any number of loads and unloads -/

/-- What holds in every state of the module's life. -/
def ModuleState.Lawful (t : Timing) : ModuleState → Prop
  | .unloaded held => held = ∅
  | .loading program w => Served t true w ∧
      (∀ op next, program = .call op next → ModuleReady t true w op) ∧
      ∀ ret, program = .done ret → ret < 0 → w.held = ∅ ∧ NoWork w.table
  | .live w => Served t true w ∧ Owned (loadedRegs w.table.procRoot).set
      (fun index : Fin ambaPciDevMax => (w.table.devs index).holds index.val) w.held
  | .unloading program w => Served t false w ∧
      (∀ op next, program = .call op next → ModuleReady t false w op) ∧
      (program = .done () → w.held = ∅ ∧ NoWork w.table)

/-- The invariant behind it: the code that is still to run is right. -/
def ModuleState.Kept (t : Timing) : ModuleState → Prop
  | .unloaded held => held = ∅
  | .loading program w => (moduleMachine t true).wp (ModuleReady t true) (Initialized t) program w
  | .live w => ∃ procRoot, Running (loadedRegs procRoot) w
  | .unloading program w => (moduleMachine t false).wp (ModuleReady t false)
      (fun _ w' => Served t false w' ∧ Calm {} w') program w

theorem Calm.nothing (calm : Calm {} w) : w.held = ∅ ∧ NoWork w.table := by
  constructor
  · rw [calm.held]
    ext r
    cases r with
    | _ => simp [Registrations.has]
  · exact fun index => (calm.asleep index).idle

theorem freshWorld_calm : Calm {} (freshWorld ∅) where
  asleep _ := ⟨⟨fun _ => ⟨rfl, rfl, rfl, rfl⟩, fun mapped => absurd rfl mapped⟩, rfl, rfl⟩
  held := by
    ext r
    cases r with
    | _ => simp [Registrations.has, freshWorld]
  procRoot := rfl
  deviceClass := rfl
  ctrlDev := rfl

variable {state state' : ModuleState}

theorem ModuleState.Kept.step (kept : state.Kept t) (step : ModuleStep t state state') :
    state'.Kept t := by
  cases step with
  | load =>
      have nothing : _ = ∅ := kept
      subst nothing
      exact ambaPciPlatformInit_calm freshWorld_calm
  | init step => exact wp_steps kept (.single step)
  | loaded succeeded =>
      obtain ⟨-, ⟨-, running⟩ | ⟨failed, -⟩⟩ := wp_post kept .refl
      · exact running
      · omega
  | refused failed =>
      obtain ⟨-, ⟨succeeded, -⟩ | ⟨-, calm⟩⟩ := wp_post kept .refl
      · omega
      · exact calm.nothing.1
  | serve moved =>
      obtain ⟨procRoot, running⟩ := kept
      have stable : (moduleMachine t true).Stable (Running (loadedRegs procRoot)) :=
        Running.stable (loadedRegs procRoot)
      exact ⟨procRoot, stable _ _ running moved⟩
  | unload =>
      obtain ⟨procRoot, running⟩ := kept
      exact ambaPciPlatformExit_calm running
  | exit step => exact wp_steps kept (.single step)
  | unloaded =>
      obtain ⟨-, calm⟩ := wp_post kept .refl
      exact calm.nothing.1

theorem ModuleState.Kept.lawful (kept : state.Kept t) : state.Lawful t := by
  cases state with
  | unloaded held => exact kept
  | loading program w =>
      refine ⟨?_, ?_, ?_⟩
      · exact wp_reached kept (fun _ _ ready => ready.served) (fun _ _ ended => ended.1) .refl
      · rintro op next rfl
        exact wp_guard kept .refl
      · rintro ret rfl failed
        obtain ⟨-, ⟨succeeded, -⟩ | ⟨-, calm⟩⟩ := wp_post kept .refl
        · omega
        · exact calm.nothing
  | live w =>
      obtain ⟨procRoot, running⟩ := kept
      refine ⟨running.served rfl, ?_⟩
      have same : w.table.procRoot = procRoot := running.procRoot
      rw [same]
      exact running.stocked.owned
  | unloading program w =>
      refine ⟨?_, ?_, ?_⟩
      · exact wp_reached kept (fun _ _ ready => ready.served) (fun _ _ ended => ended.1) .refl
      · rintro op next rfl
        exact wp_guard kept .refl
      · rintro rfl
        exact (wp_post kept .refl).2.nothing

theorem ModuleSteps.kept (lived : ModuleSteps t (.unloaded ∅) state) : state.Kept t := by
  induction lived with
  | refl => exact rfl
  | tail _ last ih => exact ih.step last

/-- However often the module is loaded and unloaded, whatever call of its init fails, and whatever
the other threads do between any two of its calls, every call is made while what it uses is there,
nothing is given back twice or kept, the lock outlives everything that takes it, and no timeout is
left behind. Each section of another thread is one step here. -/
theorem module_life (t : Timing) (state : ModuleState)
    (lived : ModuleSteps t (.unloaded ∅) state) : state.Lawful t := lived.kept.lawful

/-! Every load and every unload can come to its end -/

theorem ModuleSteps.init {program program' : ModuleCode Int}
    (ran : (moduleMachine t true).Steps (program, w) (program', w')) :
    ModuleSteps t (.loading program w) (.loading program' w') := by
  let loading (here : ModuleCode Int × ModuleWorld) : ModuleState := .loading here.1 here.2
  exact Relation.ReflTransGen.lift loading (fun _ _ step => .init step) _ _ ran

theorem ModuleSteps.exit {program program' : ModuleCode Unit}
    (ran : (moduleMachine t false).Steps (program, w) (program', w')) :
    ModuleSteps t (.unloading program w) (.unloading program' w') := by
  let unloading (here : ModuleCode Unit × ModuleWorld) : ModuleState := .unloading here.1 here.2
  exact Relation.ReflTransGen.lift unloading (fun _ _ step => .exit step) _ _ ran

theorem unloading_canEnd {program : ModuleCode Unit}
    (kept : (ModuleState.unloading program w).Kept t) :
    ModuleSteps t (.unloading program w) (.unloaded ∅) := by
  obtain ⟨_, w', ran, -, calm⟩ := canReturn_of_wp (fun _ _ ready => ready.answered) kept
  have ended := (ModuleSteps.exit ran).tail .unloaded
  rwa [calm.nothing.1] at ended

theorem live_canEnd (kept : (ModuleState.live w).Kept t) :
    ModuleSteps t (.live w) (.unloaded ∅) :=
  (unloading_canEnd (ModuleState.Kept.step kept .unload)).head .unload

/-- Whatever state the module has come to, it can be unloaded, and nothing of it is left. -/
theorem module_can_end (lived : ModuleSteps t (.unloaded ∅) state) :
    ModuleSteps t state (.unloaded ∅) := by
  have kept := lived.kept
  cases state with
  | unloaded held =>
      have nothing : held = ∅ := kept
      rw [nothing]
  | loading program w =>
      obtain ⟨ret, w', ran, -, ended⟩ := canReturn_of_wp (fun _ _ ready => ready.answered) kept
      have loads := ModuleSteps.init ran
      rcases ended with ⟨rfl, running⟩ | ⟨failed, calm⟩
      · exact (loads.tail (.loaded (le_refl 0))).trans (live_canEnd running)
      · have refused := loads.tail (.refused failed)
        rwa [calm.nothing.1] at refused
  | live w => exact live_canEnd kept
  | unloading program w => exact unloading_canEnd kept

/-! Loads that succeed, and loads that fail in their last step -/

theorem initDevs_canReturn (slots : List (Fin ambaPciDevMax)) (calm : Calm regs w) :
    (moduleMachine t users).CanReturn (fun _ w' => Calm regs w') (ModuleCode.initDevs slots) w := by
  induction slots generalizing w with
  | nil => exact canReturn_done calm
  | cons index rest ih =>
      apply calm_canReturn (.initDelayedWork index) () calm trivial (ready_unlisted _ rfl rfl rfl)
      intro w₁ calm₁
      apply calm_canReturn (.clearId index) () calm₁ trivial (ready_unlisted _ rfl rfl rfl)
      intro w₂ calm₂
      exact ih calm₂

theorem undoInit_returns {allow : (op : ModuleOp) → op.Reply → Prop} {chrdev cdev notifier : Bool}
    {ret ret' : Int}
    (returned : Prog.Returns allow (ModuleCode.undoInit chrdev cdev notifier ret) ret') :
    ret' = ret := by
  obtain ⟨_, -, returned⟩ := (returns_bind_iff _ _ _).mp returned
  obtain ⟨_, -, returned⟩ := (returns_bind_iff _ _ _).mp returned
  exact (returns_done_iff _ _).mp returned

/-- Init can come through to the notifier, and then returns what its registration does. -/
theorem ambaPciPlatformInit_canReturn (calm : Calm {} w) (notified : KernelRet) :
    (moduleMachine t true).CanReturn
      (fun ret w' => ret = notified.val ∧ (ret = 0 → Calm (loadedRegs true) w'))
      ModuleCode.ambaPciPlatformInit w := by
  apply calm_canReturn .mutexInit () calm trivial (mutexInit_ready rfl)
  intro w₁ calm₁
  apply canReturn_seq (initDevs_canReturn (List.finRange ambaPciDevMax) calm₁)
  intro _ w₂ calm₂
  apply calm_canReturn .clearNextDevId () calm₂ trivial
    ⟨Set.empty_subset _, Set.empty_subset _, Set.empty_disjoint _⟩
  intro w₃ calm₃
  apply calm_canReturn .allocChrdevRegion ⟨0, le_refl 0⟩ calm₃ trivial (allocChrdevRegion_ready rfl)
  intro w₄ calm₄
  apply calm_canReturn .classCreate none calm₄ trivial (classCreate_ready rfl)
  intro w₅ calm₅
  apply calm_canReturn .cdevAdd ⟨0, le_refl 0⟩ calm₅ trivial (cdevAdd_ready rfl rfl rfl)
  intro w₆ calm₆
  apply calm_canReturn .deviceCreate none calm₆ trivial (deviceCreate_ready rfl rfl rfl rfl)
  intro w₇ calm₇
  apply calm_canReturn .procMkdir true calm₇ trivial (procMkdir_ready rfl)
  intro w₈ calm₈
  apply calm_canReturn .busRegisterNotifier notified calm₈ trivial
    (busRegisterNotifier_ready rfl rfl)
  intro w₉ calm₉
  have registered : Calm { loadedRegs true with notifier := decide (notified.val = 0) } w₉ := calm₉
  split
  · rename_i nonzero
    have failed : notified.val < 0 := lt_of_le_of_ne notified.property nonzero
    rw [decide_eq_false nonzero] at registered
    have undone := wp_returns
      (undoInit_calm (t := t) registered rfl rfl (fun _ => rfl) rfl rfl failed)
    apply canReturn_mono (canReturn_of_wp (fun _ _ ready => ready.answered) undone)
    intro ret w' ended
    have same := undoInit_returns ended.2
    exact ⟨same, fun zero => absurd (same.symm.trans zero) nonzero⟩
  · rename_i zero
    have zero := Decidable.not_not.mp zero
    rw [decide_eq_true zero] at registered
    exact canReturn_perform () (scan_finds_nothing w₉)
      (canReturn_done ⟨rfl, fun _ => registered⟩)

/-- A card can come while the module is loaded and no slot is used. -/
theorem calm_takesCard {pdev : PciDev} (slot : getPciSlotId pdev = some index)
    (card : isVirtioCard pdev = true) (calm : Calm (loadedRegs true) w) :
    ∃ w', ModuleStep t (.live w) (.live w') ∧ (w'.table.devs index).inUse = true ∧
      (w'.table.devs index).state = .connected := by
  have bare : Resource.procDir (some index.val) ∉ w.held := by
    rw [calm.held]
    intro inside
    cases inside
  obtain ⟨table, held, ran, taken⟩ := pcieHandleAddLocked_canReturn slot card
    (calm.asleep index).unused calm.procRoot bare
  have possible : Event.Possible true w (.add pdev) := by
    show Resource.notifier ∈ w.held
    rw [calm.held]
    exact rfl
  exact ⟨{ w with table, held }, .serve ⟨.add pdev, possible, .add ran, rfl, rfl⟩, taken⟩

/-- A load that ends in its last registration, one that succeeds, a card that comes to slot 0, and
an unload. -/
theorem module_life_live : ∃ w₁ w₂,
    ModuleSteps ⟨1000, 1⟩ (.unloaded ∅) (.loading (.done (-enomem)) w₁) ∧
      (ModuleState.loading (.done (-enomem)) w₁).Lawful ⟨1000, 1⟩ ∧
      ModuleSteps ⟨1000, 1⟩ (.loading (.done (-enomem)) w₁) (.live w₂) ∧
      (w₂.table.devs 0).inUse = true ∧ (w₂.table.devs 0).state = .connected ∧
      (ModuleState.live w₂).Lawful ⟨1000, 1⟩ ∧ ModuleSteps ⟨1000, 1⟩ (.live w₂) (.unloaded ∅) := by
  obtain ⟨_, w₁, ran₁, rfl, -⟩ := ambaPciPlatformInit_canReturn (t := ⟨1000, 1⟩) freshWorld_calm
    ⟨-enomem, by decide⟩
  have loads : ModuleSteps ⟨1000, 1⟩ (.unloaded ∅) (.loading (.done (-enomem)) w₁) :=
    (Relation.ReflTransGen.single .load).trans (ModuleSteps.init ran₁)
  have refused : ModuleSteps ⟨1000, 1⟩ (.loading (.done (-enomem)) w₁) (.unloaded ∅) := by
    have lawful := module_life ⟨1000, 1⟩ _ loads
    have nothing : w₁.held = ∅ := (lawful.2.2 _ rfl (by decide)).1
    have step : ModuleStep ⟨1000, 1⟩ (.loading (.done (-enomem)) w₁) (.unloaded w₁.held) :=
      .refused (by decide)
    rw [nothing] at step
    exact .single step
  obtain ⟨_, w, ran, rfl, calm⟩ := ambaPciPlatformInit_canReturn (t := ⟨1000, 1⟩) freshWorld_calm
    ⟨0, le_refl 0⟩
  have slot : getPciSlotId (cardAt 1 1 ambaPciVirtioDeviceId) = some 0 := by decide
  obtain ⟨w₂, taken, used, connected⟩ := calm_takesCard (t := ⟨1000, 1⟩) slot (by decide)
    (calm rfl)
  have again : ModuleSteps ⟨1000, 1⟩ (.loading (.done (-enomem)) w₁) (.live w₂) :=
    (((refused.tail .load).trans (ModuleSteps.init ran)).tail (.loaded (le_refl 0))).tail taken
  exact ⟨w₁, w₂, loads, module_life ⟨1000, 1⟩ _ loads, again, used, connected,
    module_life ⟨1000, 1⟩ _ (loads.trans again), module_can_end (loads.trans again)⟩

end AmbaPci

import Mathlib.Logic.Function.Basic
import AmbaPci.SlotLifecycle

set_option autoImplicit false

/- Which boot attempt a run of the timeout work belongs to. -/
namespace AmbaPci

open Interaction.Prog (Returns returns_done_iff returns_bind_iff)

/-- The boot attempts of one slot: how many XFER_FIRMWARE calls have put it into BOOTING, which of
them armed the timer that is pending, and which armed the one whose work function is running. -/
structure Attempts where
  made : Nat := 0
  pendingOf : Nat := 0
  runningOf : Nat := 0
  deriving DecidableEq, Repr

/-- A successful transfer is a new attempt and arms its own timer. -/
def Attempts.boot (a : Attempts) : Attempts :=
  { a with made := a.made + 1, pendingOf := a.made + 1 }

/-- What is pending becomes the run in progress. -/
def Attempts.start (a : Attempts) : Attempts := { a with runningOf := a.pendingOf }

/-- The attempts of every slot after one event. -/
def recordAttempts (attempts : Fin ambaPciDevMax → Attempts) : Event → Fin ambaPciDevMax → Attempts
  | .xferFirmware _ index ret =>
      if ret = 0 then Function.update attempts index (attempts index).boot else attempts
  | .workStarts index => Function.update attempts index (attempts index).start
  | _ => attempts

/-- The runs of the driver whose steps all meet a condition on the table before them, with the
attempts counted. -/
inductive BootRun (t : Timing) (meets : Platform → Event → Prop) :
    Platform → (Fin ambaPciDevMax → Attempts) → Prop
  | init (procRoot : Bool) : BootRun t meets (platformInit procRoot) fun _ => {}
  | step {s s' : Platform} {attempts : Fin ambaPciDevMax → Attempts} {event : Event}
      (before : BootRun t meets s attempts) (met : meets s event)
      (step : LockedStep anyReply t s event s') :
      BootRun t meets s' (recordAttempts attempts event)

/-- XFER_FIRMWARE boots the slot only while no run of its timeout work is in progress. -/
def BootsUnwatched (s : Platform) : Event → Prop
  | .xferFirmware _ index ret => ret = 0 → (s.devs index).bootTimeoutWork.running = false
  | _ => True

instance (s : Platform) (event : Event) : Decidable (BootsUnwatched s event) :=
  match event with
  | .xferFirmware _ index ret =>
      inferInstanceAs (Decidable (ret = 0 → (s.devs index).bootTimeoutWork.running = false))
  | .add _ | .del _ | .enumerate _ | .query | .devInfo _ | .reboot _ | .timerExpires _
  | .workStarts _ | .workRuns _ => inferInstanceAs (Decidable True)

/-- The timeout work of a BOOTING slot, pending or running, is that of the current attempt. -/
structure OwnTimeout (e : Entry) (a : Attempts) : Prop where
  pending : e.state = .booting → e.bootTimeoutWork.pending ≠ .idle → a.pendingOf = a.made
  running : e.state = .booting → e.bootTimeoutWork.running = true → a.runningOf = a.made

variable {e e' : Entry} {a : Attempts}

/-- An entry that is not BOOTING has nothing to say about its timeout work. -/
theorem OwnTimeout.unbooted (settled : e.state ≠ .booting) : OwnTimeout e a :=
  ⟨fun booting => absurd booting settled, fun booting => absurd booting settled⟩

/-- No more work is pending or running than before. -/
theorem OwnTimeout.mono (own : OwnTimeout e a)
    (state : e'.state = .booting → e.state = .booting)
    (pending : e'.bootTimeoutWork.pending ≠ .idle → e.bootTimeoutWork.pending ≠ .idle)
    (running : e'.bootTimeoutWork.running = true → e.bootTimeoutWork.running = true) :
    OwnTimeout e' a :=
  ⟨fun booting armed => own.pending (state booting) (pending armed),
    fun booting started => own.running (state booting) (running started)⟩

theorem OwnTimeout.refreshed (own : OwnTimeout e a) (change : Refreshes e e') :
    OwnTimeout e' a := by
  apply own.mono
  · rw [change.state]
    exact id
  · rw [change.work]
    exact id
  · rw [change.work]
    exact id

theorem OwnTimeout.added {index : Fin ambaPciDevMax} {pdev : PciDev} {devId : BitVec 32}
    {mayFail : Prop} (own : OwnTimeout e a) (outcome : AddOutcome mayFail pdev index devId e e') :
    OwnTimeout e' a := by
  cases outcome with
  | ignored used untaken => exact own
  | reconnected used booting card => exact .unbooted (by simp)
  | connected free card => exact .unbooted (by simp)
  | initialized free card unbooted => exact .unbooted (by simp [initialized])
  | unsupported free unbooted other => exact own
  | failed failable free card e' undone =>
      rcases undone with rfl | ⟨name, rfl⟩
      · exact own
      · exact own.mono id id id

theorem OwnTimeout.removed (own : OwnTimeout e a) (outcome : DelOutcome e e') :
    OwnTimeout e' a := by
  cases outcome with
  | ignored free => exact own
  | detached used booting =>
      unfold detached
      split
      · exact own
      · exact own.mono id id id
  | released used settled => exact .unbooted (by simp [released])

theorem OwnTimeout.workRan (own : OwnTimeout e a) :
    OwnTimeout { pcieBootTimeoutFn e with
      bootTimeoutWork := { e.bootTimeoutWork with running := false } } a := by
  unfold pcieBootTimeoutFn
  split
  · exact .unbooted (by simp)
  · exact own.mono id id fun impossible => nomatch impossible

/-- The transfer that boots the slot arms the timer of its own attempt, and no other timeout work
is in progress. -/
theorem OwnTimeout.booted {mapped : Entry} (change : Refreshes e mapped)
    (unwatched : e.bootTimeoutWork.running = false) :
    OwnTimeout (pcieBootTimeoutSchedule { mapped with state := .booting }) a.boot := by
  constructor
  · intro _ _
    rfl
  · intro _ started
    have running : mapped.bootTimeoutWork.running = true := started
    rw [change.work, unwatched] at running
    cases running

theorem OwnTimeout.started (own : OwnTimeout e a)
    (queued : e.bootTimeoutWork.pending = .queued) :
    OwnTimeout { e with bootTimeoutWork := { pending := .idle, running := true } } a.start := by
  constructor
  · intro _ armed
    exact absurd rfl armed
  · intro booting _
    exact own.pending booting (by simp [queued])

variable {t : Timing} {s s' : Platform} {attempts : Fin ambaPciDevMax → Attempts} {event : Event}

/-- An entry changed at one slot, with the ledger of that slot. -/
theorem ownTimeout_setDev {slot : Fin ambaPciDevMax} {e' : Entry}
    (own : ∀ index, OwnTimeout (s.devs index) (attempts index))
    (after : OwnTimeout e' (recordAttempts attempts event slot))
    (others : ∀ index, index ≠ slot → recordAttempts attempts event index = attempts index)
    (index : Fin ambaPciDevMax) :
    OwnTimeout ((s.setDev slot e').devs index) (recordAttempts attempts event index) := by
  by_cases same : index = slot
  · subst same
    rw [Platform.setDev_same]
    exact after
  · rw [Platform.setDev_other s slot index e' same, others index same]
    exact own index

/-- The step lemma. -/
theorem LockedStep.ownTimeout (step : LockedStep anyReply t s event s')
    (unwatched : BootsUnwatched s event)
    (own : ∀ index, OwnTimeout (s.devs index) (attempts index)) (index : Fin ambaPciDevMax) :
    OwnTimeout (s'.devs index) (recordAttempts attempts event index) := by
  let property : Entry → Prop := fun e => OwnTimeout e (attempts index)
  have held : property (s.devs index) := own index
  cases step with
  | add returned =>
      exact pcieHandleAddLocked_keep property (fun _ outcome own => own.added outcome) returned held
  | del returned =>
      rcases pcieHandleDelLocked_returns returned with ⟨-, rfl⟩ | ⟨slot, e', -, outcome, rfl⟩
      · exact own index
      · exact ownTimeout_setDev own ((own slot).removed outcome) (fun _ _ => rfl) index
  | enumerate returned =>
      rw [pcieEnumerateExistedDevs, enumerateSlots_eq] at returned
      exact handleAdds_keep property (fun _ outcome own => own.added outcome) _ returned held
  | query returned =>
      exact queryDevs_keep property (fun change _ own => own.refreshed change) _ returned held
  | @devInfo _ slot _ returned =>
      obtain ⟨⟨info, e'⟩, first, returned⟩ := (returns_bind_iff _ _ _).mp returned
      cases (returns_done_iff _ _).mp returned
      have change := (pcieQueryDevInfoLocked_returns first).1
      exact ownTimeout_setDev own ((own slot).refreshed change) (fun _ _ => rfl) index
  | @xferFirmware req slot ret e' accepted addressed returned =>
      rcases pcieXferFirmwareLocked_returns returned with
        ⟨nonzero, change, -⟩ | ⟨zero, -, -, -, mapped, change, rfl⟩
      · have kept : recordAttempts attempts (.xferFirmware req slot ret) = attempts :=
          if_neg nonzero
        refine ownTimeout_setDev own ?_ (fun _ _ => by rw [kept]) index
        rw [kept]
        exact (own slot).refreshed change
      · have booted : recordAttempts attempts (.xferFirmware req slot ret) =
            Function.update attempts slot (attempts slot).boot := if_pos zero
        refine ownTimeout_setDev own ?_ (fun other apart => ?_) index
        · rw [booted, Function.update_self]
          exact .booted change (unwatched zero)
        · rw [booted, Function.update_of_ne apart]
  | @reboot slot =>
      refine ownTimeout_setDev own ?_ (fun _ _ => rfl) index
      show OwnTimeout (pcieRebootLocked (s.devs slot)).2 (attempts slot)
      unfold pcieRebootLocked
      split
      · exact own slot
      · split
        · exact own slot
        · exact .unbooted (by simp)
  | @timerExpires slot armed =>
      refine ownTimeout_setDev own ?_ (fun _ _ => rfl) index
      exact (own slot).mono id (fun _ => by simp [armed]) id
  | @workStarts slot queued returned =>
      have started : recordAttempts attempts (.workStarts slot) =
          Function.update attempts slot (attempts slot).start := rfl
      refine ownTimeout_setDev own ?_ (fun other apart => ?_) index
      · rw [started, Function.update_self]
        exact (own slot).started queued
      · rw [started, Function.update_of_ne apart]
  | @workRuns slot started =>
      exact ownTimeout_setDev own (own slot).workRan (fun _ _ => rfl) index

/-- The run lemma. -/
theorem BootRun.ownTimeout (run : BootRun t BootsUnwatched s attempts)
    (index : Fin ambaPciDevMax) : OwnTimeout (s.devs index) (attempts index) := by
  induction run generalizing index with
  | init procRoot => exact .unbooted (by simp [platformInit])
  | step before met step ih => exact step.ownTimeout met ih index

/-- No run or pending work belongs to an attempt that is still to come. -/
theorem BootRun.counted {meets : Platform → Event → Prop} (run : BootRun t meets s attempts)
    (index : Fin ambaPciDevMax) :
    (attempts index).pendingOf ≤ (attempts index).made ∧
      (attempts index).runningOf ≤ (attempts index).made := by
  induction run generalizing index with
  | init procRoot => exact ⟨Nat.le_refl 0, Nat.le_refl 0⟩
  | @step _ _ attempts event before met step ih =>
      have here := ih index
      cases event with
      | xferFirmware req slot ret =>
          simp only [recordAttempts]
          split
          · by_cases same : index = slot
            · subst same
              rw [Function.update_self]
              simp only [Attempts.boot]
              omega
            · rw [Function.update_of_ne same]
              exact here
          · exact here
      | workStarts slot =>
          simp only [recordAttempts]
          by_cases same : index = slot
          · subst same
            rw [Function.update_self]
            simp only [Attempts.start]
            omega
          · rw [Function.update_of_ne same]
            exact here
      | _ => exact here

/-- A step of the work function that fails a boot. -/
structure TimesOut (t : Timing) (s : Platform) (index : Fin ambaPciDevMax) (s' : Platform) :
    Prop where
  step : LockedStep anyReply t s (.workRuns index) s'
  booting : (s.devs index).state = .booting
  failed : (s'.devs index).state = .bootFailed

/-- A transfer that boots a slot whose timeout work is still running: the run goes on to fail the
new attempt. -/
theorem timesOut_of_watched {req : FwXfer} {index : Fin ambaPciDevMax}
    (step : LockedStep anyReply t s (.xferFirmware req index 0) s')
    (running : (s.devs index).bootTimeoutWork.running = true) : ∃ s'', TimesOut t s' index s'' := by
  cases step with
  | xferFirmware accepted addressed returned =>
      rcases pcieXferFirmwareLocked_returns returned with
        ⟨nonzero, -⟩ | ⟨-, used, -, -, mapped, change, rfl⟩
      · exact absurd rfl nonzero
      · have started : mapped.bootTimeoutWork.running = true := by rw [change.work, running]
        have inUse : mapped.inUse = true := change.inUse.trans used
        refine ⟨_, .workRuns ?_, ?_, ?_⟩
        · rw [Platform.setDev_same]
          exact started
        · rw [Platform.setDev_same]
          rfl
        · simp [pcieBootTimeoutFn, pcieBootTimeoutSchedule, inUse]

/-- In the runs in which no slot is booted while its timeout work is running, a run of that work
fails only the attempt that armed its timer; where a slot is booted meanwhile, the run in progress
can fail the new attempt. -/
theorem boot_timeout_own_attempt (t : Timing) (s s' : Platform)
    (attempts : Fin ambaPciDevMax → Attempts) :
    (∀ index, BootRun t BootsUnwatched s attempts → TimesOut t s index s' →
      (attempts index).runningOf = (attempts index).made) ∧
    ∀ event, BootRun t (fun _ _ => True) s attempts → LockedStep anyReply t s event s' →
      ¬ BootsUnwatched s event →
      ∃ index s'', TimesOut t s' index s'' ∧
        (recordAttempts attempts event index).runningOf ≠
          (recordAttempts attempts event index).made := by
  constructor
  · intro index run fails
    have started : (s.devs index).bootTimeoutWork.running = true := by
      cases fails.step with
      | workRuns started => exact started
    exact (run.ownTimeout index).running fails.booting started
  · intro event run step watched
    cases event with
    | xferFirmware req index ret =>
        have both : ret = 0 ∧ (s.devs index).bootTimeoutWork.running = true := by
          simpa [BootsUnwatched] using watched
        obtain ⟨zero, running⟩ := both
        subst zero
        obtain ⟨s'', fails⟩ := timesOut_of_watched step running
        refine ⟨index, s'', fails, ?_⟩
        have booted : recordAttempts attempts (.xferFirmware req index 0) index =
            (attempts index).boot := Function.update_self index _ attempts
        have earlier := (run.counted index).2
        rw [booted]
        simp only [Attempts.boot]
        omega
    | _ => exact absurd trivial watched

/-- The table and the attempts after a list of events that all meet the condition. -/
def driveBoots (meets : Platform → Event → Prop) [∀ s event, Decidable (meets s event)]
    (t : Timing) : List Event → Platform × (Fin ambaPciDevMax → Attempts) →
      Option (Platform × (Fin ambaPciDevMax → Attempts))
  | [], config => some config
  | event :: rest, (s, attempts) =>
      match driveEvent promptReply t s event with
      | none => none
      | some s' =>
          if meets s event then driveBoots meets t rest (s', recordAttempts attempts event)
          else none

theorem driveBoots_run {meets : Platform → Event → Prop} [∀ s event, Decidable (meets s event)]
    (events : List Event) {attempts' : Fin ambaPciDevMax → Attempts}
    (run : BootRun t meets s attempts)
    (driven : driveBoots meets t events (s, attempts) = some (s', attempts')) :
    BootRun t meets s' attempts' := by
  induction events generalizing s attempts with
  | nil =>
      cases driven
      exact run
  | cons event rest ih =>
      simp only [driveBoots] at driven
      split at driven
      · cases driven
      · rename_i next first
        simp only [Option.ite_none_right_eq_some] at driven
        have step : LockedStep anyReply t s event next :=
          driveEvent_step (fun _ _ _ => trivial) first
        exact ih (run.step driven.1 step) driven.2

/-- The boot of slot 0 up to the start of its timeout work. -/
def expiredEvents : List Event := bootEvents ++ [.timerExpires 0, .workStarts 0]

/-- Meanwhile the card comes up, is unplugged and replaced, and the new card is booted. -/
def replacedEvents : List Event :=
  expiredEvents ++ [.del (cardAt 1 1 ambaPciTargetDeviceId),
    .add (cardAt 2 1 ambaPciVirtioDeviceId), .del (cardAt 2 1 ambaPciVirtioDeviceId),
    .add (cardAt 3 1 ambaPciTargetDeviceId), .xferFirmware smallRequest 0 0]

/-- Where a list of events ends when every step meets the condition. -/
def bootsAfter (meets : Platform → Event → Prop) [∀ s event, Decidable (meets s event)]
    (events : List Event) : Platform × (Fin ambaPciDevMax → Attempts) :=
  (driveBoots meets ⟨1000, 1⟩ events (platformInit true, fun _ => {})).getD
    (platformInit true, fun _ => {})

theorem bootsAfter_run (meets : Platform → Event → Prop) [∀ s event, Decidable (meets s event)]
    (events : List Event) (ran : (driveBoots meets ⟨1000, 1⟩ events
      (platformInit true, fun _ => {})).isSome = true) :
    BootRun ⟨1000, 1⟩ meets (bootsAfter meets events).1 (bootsAfter meets events).2 := by
  obtain ⟨⟨s, attempts⟩, found⟩ := Option.isSome_iff_exists.mp ran
  simp only [bootsAfter, found, Option.getD_some]
  exact driveBoots_run _ (.init true) found

theorem timesOut_of_drive {index : Fin ambaPciDevMax}
    (driven : driveEvent promptReply t s (.workRuns index) = some s')
    (booting : (s.devs index).state = .booting) (failed : (s'.devs index).state = .bootFailed) :
    TimesOut t s index s' :=
  ⟨driveEvent_step (fun _ _ _ => trivial) driven, booting, failed⟩

/-- The table after the timeout work of slot 0 has run. -/
def workRan (s : Platform) : Platform :=
  s.setDev 0 { pcieBootTimeoutFn (s.devs 0) with
    bootTimeoutWork := { (s.devs 0).bootTimeoutWork with running := false } }

/-- An attempt that is not answered in time is failed by its own timer. -/
theorem boot_timeout_own_attempt_expired :
    ((bootsAfter BootsUnwatched expiredEvents).2 0).runningOf =
      ((bootsAfter BootsUnwatched expiredEvents).2 0).made := by
  have run : BootRun ⟨1000, 1⟩ BootsUnwatched (bootsAfter BootsUnwatched expiredEvents).1
      (bootsAfter BootsUnwatched expiredEvents).2 :=
    bootsAfter_run BootsUnwatched expiredEvents (by decide +kernel)
  exact (boot_timeout_own_attempt ⟨1000, 1⟩ (bootsAfter BootsUnwatched expiredEvents).1
    (workRan (bootsAfter BootsUnwatched expiredEvents).1)
    (bootsAfter BootsUnwatched expiredEvents).2).1 0 run
    (timesOut_of_drive (by rfl) (by decide +kernel) (by decide +kernel))

/-- The timeout work of the first boot fails the second one. -/
theorem boot_timeout_replaced : ¬ ∀ t s s' attempts index, BootRun t (fun _ _ => True) s attempts →
    TimesOut t s index s' → (attempts index).runningOf = (attempts index).made := by
  intro claim
  have run : BootRun ⟨1000, 1⟩ (fun _ _ => True) (bootsAfter (fun _ _ => True) replacedEvents).1
      (bootsAfter (fun _ _ => True) replacedEvents).2 :=
    bootsAfter_run (fun _ _ => True) replacedEvents (by decide +kernel)
  have same := claim ⟨1000, 1⟩ (bootsAfter (fun _ _ => True) replacedEvents).1
    (workRan (bootsAfter (fun _ _ => True) replacedEvents).1)
    (bootsAfter (fun _ _ => True) replacedEvents).2 0 run
    (timesOut_of_drive (by rfl) (by decide +kernel) (by decide +kernel))
  revert same
  decide +kernel

end AmbaPci

import AmbaPci.InteractionMachine
import AmbaPci.SlotSystem

set_option autoImplicit false

/- The lock-protected steps once more, run on a machine: what the operations of a section do to the
machine's state is part of the step. -/
namespace AmbaPci

open Interaction

variable {σ : Type}

/-- A lock-protected step of the loaded driver. The module's own scan is over by then. -/
inductive SectionStep (M : Machine Op Op.Reply σ) (t : Timing) :
    Platform × σ → Event → Platform × σ → Prop
  | add {s s' : Platform} {w w' : σ} {pdev : PciDev}
      (ran : M.Steps (pciePciBusNotify .addDevice pdev s, w) (.done s', w')) :
      SectionStep M t (s, w) (.add pdev) (s', w')
  | del {s s' : Platform} {w w' : σ} {pdev : PciDev}
      (ran : M.Steps (pciePciBusNotify .delDevice pdev s, w) (.done s', w')) :
      SectionStep M t (s, w) (.del pdev) (s', w')
  | query {s s' : Platform} {w w' : σ} {infos : List DevInfo}
      (ran : M.Steps (pcieQueryPlatformInfoLocked s, w) (.done (infos, s'), w')) :
      SectionStep M t (s, w) .query (s', w')
  | devInfo {s s' : Platform} {w w' : σ} {index : Fin ambaPciDevMax} {info : DevInfo}
      (ran : M.Steps (pcieDevInfoReadLocked index s, w) (.done (info, s'), w')) :
      SectionStep M t (s, w) (.devInfo index) (s', w')
  | xferFirmware {s : Platform} {w w' : σ} {req : FwXfer} {index : Fin ambaPciDevMax} {ret : Int}
      {e' : Entry} (accepted : fwXferAccepted req = true) (addressed : req.slotId.toNat = index.val)
      (ran : M.Steps (pcieXferFirmwareLocked t req (s.devs index), w) (.done (ret, e'), w')) :
      SectionStep M t (s, w) (.xferFirmware req index ret) (s.setDev index e', w')
  | reboot {s : Platform} {w : σ} {index : Fin ambaPciDevMax} :
      SectionStep M t (s, w) (.reboot index)
        (s.setDev index (pcieRebootLocked (s.devs index)).2, w)
  | timerExpires {s : Platform} {w : σ} {index : Fin ambaPciDevMax}
      (armed : (s.devs index).bootTimeoutWork.pending = .armed) :
      SectionStep M t (s, w) (.timerExpires index) (s.setDev index
        { s.devs index with
          bootTimeoutWork := { (s.devs index).bootTimeoutWork with pending := .queued } }, w)
  | workStarts {s : Platform} {w : σ} {index : Fin ambaPciDevMax}
      (queued : (s.devs index).bootTimeoutWork.pending = .queued)
      (returned : (s.devs index).bootTimeoutWork.running = false) :
      SectionStep M t (s, w) (.workStarts index) (s.setDev index
        { s.devs index with bootTimeoutWork := { pending := .idle, running := true } }, w)
  | workRuns {s : Platform} {w : σ} {index : Fin ambaPciDevMax}
      (started : (s.devs index).bootTimeoutWork.running = true) :
      SectionStep M t (s, w) (.workRuns index) (s.setDev index
        { pcieBootTimeoutFn (s.devs index) with
          bootTimeoutWork := { (s.devs index).bootTimeoutWork with running := false } }, w)

variable {M : Machine Op Op.Reply σ} {t : Timing}

/-- Whatever the machine, the table moves as it does against arbitrary replies. -/
theorem SectionStep.locked {before after : Platform × σ} {event : Event}
    (step : SectionStep M t before event after) :
    LockedStep anyReply t before.1 event after.1 := by
  cases step with
  | add ran => exact .add ran.returns
  | del ran => exact .del ran.returns
  | query ran => exact .query ran.returns
  | devInfo ran => exact .devInfo ran.returns
  | xferFirmware accepted addressed ran => exact .xferFirmware accepted addressed ran.returns
  | reboot => exact .reboot
  | timerExpires armed => exact .timerExpires armed
  | workStarts queued returned => exact .workStarts queued returned
  | workRuns started => exact .workRuns started

/-- The releases of `amba_pci_platform_exit`. -/
def releaseDevs : List (Fin ambaPciDevMax) → Platform → Host Platform
  | [], s => pure s
  | index :: rest, s => do
      let e ← pcieReleaseDev (s.devs index)
      releaseDevs rest (s.setDev index e)

/-- The locked part of `amba_pci_platform_exit`. -/
def ambaPciPlatformExitLocked (s : Platform) : Host Platform := do
  let s ← releaseDevs (List.finRange ambaPciDevMax) s
  pure { s with nextDevId := 0 }

/-! The steps as a function, on an executable machine -/

def driveSection {Move : Type} (D : Machine.Driver Op Op.Reply σ Move) (t : Timing) :
    Platform × σ → Event → Option (Platform × σ)
  | (s, w), .add pdev => D.eval (pciePciBusNotify .addDevice pdev s) w
  | (s, w), .del pdev => D.eval (pciePciBusNotify .delDevice pdev s) w
  | (s, w), .query => (D.eval (pcieQueryPlatformInfoLocked s) w).map fun ((_, s'), w') => (s', w')
  | (s, w), .devInfo index =>
      (D.eval (pcieDevInfoReadLocked index s) w).map fun ((_, s'), w') => (s', w')
  | (s, w), .xferFirmware req index ret =>
      if fwXferAccepted req = true ∧ req.slotId.toNat = index.val then
        match D.eval (pcieXferFirmwareLocked t req (s.devs index)) w with
        | some ((value, e'), w') => if value = ret then some (s.setDev index e', w') else none
        | none => none
      else none
  | (_, _), .enumerate _ => none
  | (s, w), event => (driveEvent (fun _ => none) t s event).map fun s' => (s', w)

theorem driveSection_step {Move : Type} {D : Machine.Driver Op Op.Reply σ Move} (sound : D.Sound M)
    {before after : Platform × σ} {event : Event}
    (driven : driveSection D t before event = some after) :
    SectionStep M t before event after := by
  obtain ⟨s, w⟩ := before
  cases event with
  | add pdev => exact .add (sound.eval driven)
  | del pdev => exact .del (sound.eval driven)
  | enumerate present => cases driven
  | query =>
      obtain ⟨⟨⟨infos, s'⟩, w'⟩, ran, rfl⟩ := Option.map_eq_some_iff.mp driven
      exact .query (sound.eval ran)
  | devInfo index =>
      obtain ⟨⟨⟨info, s'⟩, w'⟩, ran, rfl⟩ := Option.map_eq_some_iff.mp driven
      exact .devInfo (sound.eval ran)
  | xferFirmware req index ret =>
      simp only [driveSection] at driven
      split at driven
      · rename_i able
        split at driven
        · rename_i value e' w' ran
          split at driven
          · rename_i same
            cases driven
            subst same
            exact .xferFirmware able.1 able.2 (sound.eval ran)
          · cases driven
        · cases driven
      · cases driven
  | reboot index =>
      cases driven
      exact .reboot
  | timerExpires index =>
      obtain ⟨s', moved, rfl⟩ := Option.map_eq_some_iff.mp driven
      simp only [driveEvent] at moved
      split at moved
      · cases moved
        exact .timerExpires (by assumption)
      · cases moved
  | workStarts index =>
      obtain ⟨s', moved, rfl⟩ := Option.map_eq_some_iff.mp driven
      simp only [driveEvent] at moved
      split at moved
      · rename_i able
        cases moved
        exact .workStarts able.1 able.2
      · cases moved
  | workRuns index =>
      obtain ⟨s', moved, rfl⟩ := Option.map_eq_some_iff.mp driven
      simp only [driveEvent] at moved
      split at moved
      · cases moved
        exact .workRuns (by assumption)
      · cases moved

end AmbaPci

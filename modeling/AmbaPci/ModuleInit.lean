import AmbaPci.SlotHoldings

set_option autoImplicit false

/- `amba_pci_platform_init` and `amba_pci_platform_exit`: what the module registers with the kernel,
in which order, and how it is taken back. -/
namespace AmbaPci

open Interaction

/-- The pointers of `struct amba_pci_platform` that say what is there to be taken back. -/
inductive Pointer
  | procRoot
  | deviceClass
  | ctrlDev
  deriving DecidableEq

/-- The kernel services that load and unload the module, the stores to `g_pcie_drv` between them,
and the two sections that run under the lock. What a creating call returns is stored in its pointer,
and a destroying call is followed by clearing it: both belong to the call here. -/
inductive ModuleOp
  | mutexInit
  | mutexDestroy
  | initDelayedWork (index : Fin ambaPciDevMax)
  | clearId (index : Fin ambaPciDevMax)
  | clearNextDevId
  | cancelDelayedWorkSync (index : Fin ambaPciDevMax)
  | allocChrdevRegion
  | unregisterChrdevRegion
  | classCreate
  | classDestroy
  | cdevAdd
  | cdevDel
  | deviceCreate
  | deviceDestroy
  | procMkdir
  | procRemove
  | busRegisterNotifier
  | busUnregisterNotifier
  | pointer (which : Pointer)
  | enumerateExistedDevs
  | releaseDevs
  deriving DecidableEq

/-- 0, or a negative errno. -/
abbrev KernelRet : Type := { ret : Int // ret ≤ 0 }

/-- `PTR_ERR` of an error pointer. -/
abbrev PtrErr : Type := { err : Int // err < 0 }

/-- `class_create` and `device_create` reply with the error, if there is one. -/
abbrev ModuleOp.Reply : ModuleOp → Type
  | .allocChrdevRegion => KernelRet
  | .cdevAdd => KernelRet
  | .busRegisterNotifier => KernelRet
  | .classCreate => Option PtrErr
  | .deviceCreate => Option PtrErr
  | .procMkdir => Bool
  | .pointer _ => Bool
  | _ => Unit

abbrev ModuleCode : Type → Type := Prog ModuleOp ModuleOp.Reply

abbrev ModuleOp.perform (op : ModuleOp) : ModuleCode op.Reply := Prog.perform op

namespace ModuleCode

/-- The loop of `amba_pci_platform_init` over the slots. -/
def initDevs : List (Fin ambaPciDevMax) → ModuleCode Unit
  | [] => pure ()
  | index :: rest => do
      ModuleOp.perform (.initDelayedWork index)
      ModuleOp.perform (.clearId index)
      initDevs rest

def cancelWorks : List (Fin ambaPciDevMax) → ModuleCode Unit
  | [] => pure ()
  | index :: rest => do
      ModuleOp.perform (.cancelDelayedWorkSync index)
      cancelWorks rest

/-- `if (flag) op();` -/
def performIf (flag : Bool) (op : ModuleOp) : ModuleCode Unit :=
  if flag then do
    let _ ← op.perform
    pure ()
  else pure ()

def performIfSet (which : Pointer) (op : ModuleOp) : ModuleCode Unit := do
  let set ← ModuleOp.perform (.pointer which)
  performIf set op

/-- The end that the failing init and the exit have in common, from `proc_root` on. -/
def removeRegistrations (chrdevRegistered cdevRegistered : Bool) : ModuleCode Unit := do
  performIfSet .procRoot .procRemove
  performIfSet .ctrlDev .deviceDestroy
  performIf cdevRegistered .cdevDel
  performIfSet .deviceClass .classDestroy
  performIf chrdevRegistered .unregisterChrdevRegion
  ModuleOp.perform .mutexDestroy

/-- `AMBA_PCI_PLATFORM_INIT_EXIT` after a failure. -/
def undoInit (chrdevRegistered cdevRegistered notifierRegistered : Bool) (ret : Int) :
    ModuleCode Int := do
  performIf notifierRegistered .busUnregisterNotifier
  removeRegistrations chrdevRegistered cdevRegistered
  pure ret

def ambaPciPlatformInit : ModuleCode Int := do
  ModuleOp.perform .mutexInit
  initDevs (List.finRange ambaPciDevMax)
  ModuleOp.perform .clearNextDevId
  let region ← ModuleOp.perform .allocChrdevRegion
  if region.val < 0 then undoInit false false false region.val
  else do
    let created ← ModuleOp.perform .classCreate
    match created with
    | some err => undoInit true false false err.val
    | none => do
        let added ← ModuleOp.perform .cdevAdd
        if added.val ≠ 0 then undoInit true false false added.val
        else do
          let created ← ModuleOp.perform .deviceCreate
          match created with
          | some err => undoInit true true false err.val
          | none => do
              let _ ← ModuleOp.perform .procMkdir
              let notified ← ModuleOp.perform .busRegisterNotifier
              if notified.val ≠ 0 then undoInit true true false notified.val
              else do
                ModuleOp.perform .enumerateExistedDevs
                pure notified.val

def ambaPciPlatformExit : ModuleCode Unit := do
  ModuleOp.perform .busUnregisterNotifier
  cancelWorks (List.finRange ambaPciDevMax)
  ModuleOp.perform .releaseDevs
  removeRegistrations true true

end ModuleCode

/-- What hands a thread the lock: the character device, the notifier, and files in proc. -/
def lockUsers : Set Resource :=
  {r | r = .cdev ∨ r = .notifier ∨ r = .procRoot ∨ ∃ name, r = .procDir name}

/-- Nothing is registered twice. A class is not destroyed under its device, a region of numbers not
given back under its cdev, the proc root not removed with a slot's directory in it, and the lock not
destroyed while something is left through which it can be taken. -/
def moduleLedger : Ledger ModuleOp ModuleOp.Reply Resource where
  acquires
    | .mutexInit, _ => {.mutex}
    | .allocChrdevRegion, ret => if ret.val = 0 then {.chrdev} else ∅
    | .classCreate, none => {.deviceClass}
    | .cdevAdd, ret => if ret.val = 0 then {.cdev} else ∅
    | .deviceCreate, none => {.device}
    | .procMkdir, true => {.procRoot}
    | .busRegisterNotifier, ret => if ret.val = 0 then {.notifier} else ∅
    | _, _ => ∅
  releases
    | .mutexDestroy => {.mutex}
    | .unregisterChrdevRegion => {.chrdev}
    | .classDestroy => {.deviceClass}
    | .cdevDel => {.cdev}
    | .deviceDestroy => {.device}
    | .procRemove => {.procRoot}
    | .busUnregisterNotifier => {.notifier}
    | _ => ∅
  uses
    | .cdevAdd => {.chrdev, .mutex}
    | .deviceCreate => {.deviceClass, .chrdev, .cdev}
    | .deviceDestroy => {.deviceClass}
    | .busRegisterNotifier => {.mutex}
    | .enumerateExistedDevs => {.mutex}
    | .releaseDevs => {.mutex}
    | _ => ∅
  bars
    | .mutexInit => {.mutex}
    | .allocChrdevRegion => {.chrdev}
    | .classCreate => {.deviceClass}
    | .cdevAdd => {.cdev}
    | .deviceCreate => {.device}
    | .procMkdir => {.procRoot}
    | .busRegisterNotifier => {.notifier}
    | .mutexDestroy => lockUsers
    | .unregisterChrdevRegion => {.cdev, .device}
    | .classDestroy => {.device}
    | .procRemove => {r | ∃ name, r = .procDir name}
    | _ => ∅

/-- The module's data, and what the kernel has given it. -/
structure ModuleWorld where
  table : Platform
  deviceClass : Bool
  ctrlDev : Bool
  held : Set Resource

namespace ModuleWorld

def pointer (w : ModuleWorld) : Pointer → Bool
  | .procRoot => w.table.procRoot
  | .deviceClass => w.deviceClass
  | .ctrlDev => w.ctrlDev

def setWork (w : ModuleWorld) (index : Fin ambaPciDevMax) (work : DelayedWork) : ModuleWorld :=
  { w with table := w.table.setDev index { w.table.devs index with bootTimeoutWork := work } }

def clearId (w : ModuleWorld) (index : Fin ambaPciDevMax) : ModuleWorld :=
  { w with table := w.table.setDev index { w.table.devs index with id := 0 } }

/-- The stores to the module's data. -/
def store (w : ModuleWorld) : (op : ModuleOp) → op.Reply → ModuleWorld
  | .initDelayedWork index, _ => w.setWork index {}
  | .clearId index, _ => w.clearId index
  | .clearNextDevId, _ => { w with table := { w.table with nextDevId := 0 } }
  | .classCreate, err => { w with deviceClass := Option.isNone err }
  | .classDestroy, _ => { w with deviceClass := false }
  | .deviceCreate, err => { w with ctrlDev := Option.isNone err }
  | .deviceDestroy, _ => { w with ctrlDev := false }
  | .procMkdir, made => { w with table := { w.table with procRoot := made } }
  | .procRemove, _ => { w with table := { w.table with procRoot := false } }
  | _, _ => w

end ModuleWorld

/-- How the kernel and the sections answer. `cancel_delayed_work_sync` returns once the work
function is not running; the scan may find any devices. -/
def moduleAnswer (w : ModuleWorld) : (op : ModuleOp) → op.Reply → ModuleWorld → Prop
  | .pointer which, set, w' => set = w.pointer which ∧ w' = w
  | .cancelDelayedWorkSync index, _, w' =>
      (w.table.devs index).bootTimeoutWork.running = false ∧ w' = w.setWork index {}
  | .enumerateExistedDevs, _, w' => ∃ present table held,
      slotLedger.machine.Steps (pcieEnumerateExistedDevs present w.table, w.held)
        (.done table, held) ∧ w' = { w with table, held }
  | .releaseDevs, _, w' => ∃ table held,
      slotLedger.machine.Steps (ambaPciPlatformExitLocked w.table, w.held) (.done table, held) ∧
        w' = { w with table, held }
  | op, reply, w' => Disjoint (moduleLedger.acquires op reply) w.held ∧
      w' = { w.store op reply with held := moduleLedger.after w.held op reply }

/-- What another thread can do now: PCI events come through the notifier, ioctls through the
character device, which no process has open while the module is unloaded, and reads and writes of
the proc files through the directory of the slot. -/
def Event.Possible (users : Bool) (w : ModuleWorld) : Event → Prop
  | .add _ => Resource.notifier ∈ w.held
  | .del _ => Resource.notifier ∈ w.held
  | .enumerate _ => False
  | .query => users = true ∧ Resource.cdev ∈ w.held
  | .xferFirmware _ _ _ => users = true ∧ Resource.cdev ∈ w.held
  | .devInfo index => Resource.procDir (some index.val) ∈ w.held
  | .reboot index => Resource.procDir (some index.val) ∈ w.held
  | .timerExpires index => (w.table.devs index).bootTimeoutWork.pending = .armed
  | .workStarts index => (w.table.devs index).bootTimeoutWork.pending = .queued
  | .workRuns index => (w.table.devs index).bootTimeoutWork.running = true

/-- The module's own code, with whole sections of other threads between its calls. -/
def moduleMachine (t : Timing) (users : Bool) : Machine ModuleOp ModuleOp.Reply ModuleWorld where
  answer := moduleAnswer
  interfere w w' := ∃ event, event.Possible users w ∧
    SectionStep slotLedger.machine t (w.table, w.held) event (w'.table, w'.held) ∧
    w'.deviceClass = w.deviceClass ∧ w'.ctrlDev = w.ctrlDev

/-- The module from the outside. What is held outlives the module if it is not given back. -/
inductive ModuleState
  | unloaded (held : Set Resource)
  | loading (program : ModuleCode Int) (w : ModuleWorld)
  | live (w : ModuleWorld)
  | unloading (program : ModuleCode Unit) (w : ModuleWorld)

/-- Zeroed data, as the module is loaded with. -/
def freshWorld (held : Set Resource) : ModuleWorld := ⟨platformInit false, false, false, held⟩

/-- The module is loaded and unloaded any number of times. It does not stay when init returns a
negative value. -/
inductive ModuleStep (t : Timing) : ModuleState → ModuleState → Prop
  | load {held : Set Resource} :
      ModuleStep t (.unloaded held) (.loading ModuleCode.ambaPciPlatformInit (freshWorld held))
  | init {program program' : ModuleCode Int} {w w' : ModuleWorld}
      (step : (moduleMachine t true).Step (program, w) (program', w')) :
      ModuleStep t (.loading program w) (.loading program' w')
  | loaded {ret : Int} {w : ModuleWorld} (succeeded : 0 ≤ ret) :
      ModuleStep t (.loading (.done ret) w) (.live w)
  | refused {ret : Int} {w : ModuleWorld} (failed : ret < 0) :
      ModuleStep t (.loading (.done ret) w) (.unloaded w.held)
  | serve {w w' : ModuleWorld} (moved : (moduleMachine t true).interfere w w') :
      ModuleStep t (.live w) (.live w')
  | unload {w : ModuleWorld} : ModuleStep t (.live w) (.unloading ModuleCode.ambaPciPlatformExit w)
  | exit {program program' : ModuleCode Unit} {w w' : ModuleWorld}
      (step : (moduleMachine t false).Step (program, w) (program', w')) :
      ModuleStep t (.unloading program w) (.unloading program' w')
  | unloaded {w : ModuleWorld} : ModuleStep t (.unloading (.done ()) w) (.unloaded w.held)

abbrev ModuleSteps (t : Timing) : ModuleState → ModuleState → Prop :=
  Relation.ReflTransGen (ModuleStep t)

end AmbaPci

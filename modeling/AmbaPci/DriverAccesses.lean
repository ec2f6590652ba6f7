import AmbaPci.DriverThreads
import AmbaPci.FileIoctl
import AmbaPci.InteractionLocked
import AmbaPci.ProcText
import AmbaPci.SlotAccesses

set_option autoImplicit false

/- The driver's threads, one access to `g_pcie_drv` after the other: what they do under the driver
lock and what they do without it. The locks of the PCI core and of procfs are left out, which only
lets more interleavings happen. -/
namespace AmbaPci

open ByteMemory (Byte)
open Interaction
open TextFormat (Text)

/-- The functions of the buzz module that are looked up when they are called. -/
inductive BuzzSymbol
  | busNetGet
  | busEpinfoRead
  deriving DecidableEq

/-- Steps without the driver lock. `peek` is the read of one field. The buzz functions are called
for an entry, and `copyToUser` for a reader of one of its proc nodes; `workBegins` is the
workqueue's call of the boot timeout. -/
inductive FreeOp
  | peek (index : Fin ambaPciDevMax)
  | kernel (op : Op)
  | h2d (op : H2dOp)
  | isAdded (pdev : PciDev)
  | copyInfo (info : PlatformInfo)
  | copyToUser (index : Fin ambaPciDevMax) (node : ProcNode) (bytes : List Byte)
  | symbolGet (symbol : BuzzSymbol)
  | symbolPut (symbol : BuzzSymbol)
  | busNetGet (index : Fin ambaPciDevMax) (bus : BitVec 32) (size : Nat)
  | busEpinfoRead (index : Fin ambaPciDevMax) (bus : BitVec 32) (size : Nat)
  | workBegins (index : Fin ambaPciDevMax)

/-- `copy_to_user` replies with what it has not copied: of the record whether there is such a
part, of a text how many bytes. The buzz functions reply with the text they have filled in. -/
abbrev FreeOp.Reply : FreeOp → Type
  | .peek _ => Entry
  | .kernel op => op.Reply
  | .h2d op => op.Reply
  | .isAdded _ => Bool
  | .copyInfo _ => Bool
  | .copyToUser _ _ _ => Nat
  | .symbolGet _ => Bool
  | .busNetGet _ _ _ => Option Text
  | .busEpinfoRead _ _ _ => Option Text
  | _ => Unit

abbrev DriverCode : Type → Type := LockedProg AccessOp.Reply FreeOp.Reply

namespace DriverCode

abbrev free (op : FreeOp) : DriverCode op.Reply := Prog.perform (LockedOp.outer op)

abbrev peek (index : Fin ambaPciDevMax) : DriverCode Entry := free (.peek index)

/-- A section under `g_pcie_drv.lock`. -/
def underLock {α : Type} (section_ : Access α) : DriverCode α := locked section_ .done

def nullDereference {α : Type} : DriverCode α :=
  .call (LockedOp.outer (FreeOp.kernel Op.oops)) fun impossible => nomatch impossible

/-! Hotplug and the ioctls -/

/-- `pcie_pci_bus_notify`. -/
def busNotify (action : BusAction) (pdev : PciDev) : DriverCode Unit :=
  underLock (Access.pciePciBusNotify action pdev)

/-- `pci_stop_and_remove_bus_device_locked`. -/
def pciStopAndRemoveBusDeviceLocked : Option PciDev → DriverCode Unit
  | none => nullDereference
  | some pdev => do
      let added ← free (.isAdded pdev)
      if added then busNotify .delDevice pdev else pure ()

def callStep (t : Timing) : (op : CallOp) → DriverCode op.Reply
  | .inUse index => do
      let e ← peek index
      pure e.inUse
  | .readPdev index => do
      let e ← peek index
      pure e.pdev
  | .rebootLocked index => underLock (Access.pcieRebootLocked index)
  | .xferFirmwareLocked req index => underLock (Access.pcieXferFirmwareLocked t req index)
  | .stopAndRemove pdev => pciStopAndRemoveBusDeviceLocked pdev
  | .kernel op => free (.kernel op)

def pcieIoctlXferFirmware (t : Timing) (argp : Option FwXfer) : DriverCode Int :=
  (pcieIoctlXferFirmwareCall argp).interp (callStep t)

def pcieProcRebootWrite (t : Timing) (index : Fin ambaPciDevMax) (buf : BitVec 64)
    (count ppos : Nat) : DriverCode Int :=
  (AmbaPci.pcieProcRebootWrite index buf count ppos).interp (callStep t)

/-- The section of the H2D ioctls reads the entry; nobody stores into it meanwhile. -/
def h2dStep : (op : H2dOp) → DriverCode op.Reply
  | .lockedEntry index => underLock (Access.read index)
  | .symbolGet => free (.h2d .symbolGet)
  | .symbolPut => free (.h2d .symbolPut)
  | .filpOpen path => free (.h2d (.filpOpen path))
  | .filpClose => free (.h2d .filpClose)
  | .vmalloc size => free (.h2d (.vmalloc size))
  | .vfree => free (.h2d .vfree)
  | .copyFromUser src length => free (.h2d (.copyFromUser src length))
  | .kernelRead pos count => free (.h2d (.kernelRead pos count))
  | .h2dXfer bus bytes epAddr => free (.h2d (.h2dXfer bus bytes epAddr))
  | .spin => free (.h2d .spin)

def pcieIoctlH2dSend (call : H2dCall) : DriverCode Int := call.program.interp h2dStep

/-- `pcie_ioctl_query_platform_info`; an entry is in use exactly when its record is valid. -/
def pcieIoctlQueryPlatformInfo (argp : BitVec 64) : DriverCode Int :=
  if argp = 0 then pure (-einval)
  else do
    let devs ← underLock Access.pcieQueryPlatformInfoLocked
    let validCount := devs.countP fun info => info.isValid ≠ 0
    let copied ← free (.copyInfo ⟨1, BitVec.ofNat 32 validCount, devs⟩)
    if copied = false then pure (-efault) else pure 0

/-! The proc nodes that are read -/

/-- `simple_read_from_buffer`, at an offset that is not negative. -/
def simpleReadFromBuffer (index : Fin ambaPciDevMax) (node : ProcNode) (nbytes ppos : Nat)
    (buffer : Text) : DriverCode Int :=
  let piece := simpleReadPiece nbytes ppos buffer
  if piece.isEmpty then pure 0
  else do
    let left ← free (.copyToUser index node piece)
    if left = piece.length then pure (-efault) else pure (piece.length - left : Int)

/-- `pcie_proc_read_page` and `pcie_proc_dev_log_read`, which differ in the size of the buffer. A
reader puts a text into it or fails. -/
def pcieProcRead (index : Fin ambaPciDevMax) (node : ProcNode) (size : Nat)
    (reader : Nat → DriverCode (Except Int Text)) (nbytes ppos : Nat) : DriverCode Int := do
  let kbuf ← free (.kernel (.kmalloc size))
  if kbuf = false then pure (-enomem)
  else do
    let len ← reader size
    match len with
    | .error err => pure err
    | .ok buffer => simpleReadFromBuffer index node nbytes ppos buffer

def pcieStatusReadEntry (index : Fin ambaPciDevMax) (size : Nat) :
    DriverCode (Except Int Text) := do
  let e ← peek index
  pure (.ok (AmbaPci.pcieStatusReadEntry size e))

def pcieDevInfoReadEntry (pciName : PciDev → Text) (index : Fin ambaPciDevMax) (size : Nat) :
    DriverCode (Except Int Text) := do
  let (info, e) ← underLock (Access.pcieDevInfoReadLocked index)
  pure (.ok (pcieDevInfoText pciName size info e))

/-- `bus` of the two readers that ask the buzz module. -/
def entryBus (index : Fin ambaPciDevMax) : DriverCode (BitVec 32) := do
  let e ← peek index
  if e.pdev.isSome then do
    let e ← peek index
    match e.pdev with
    | none => nullDereference
    | some pdev => pure (pdev.bus.setWidth 32)
  else do
    let e ← peek index
    pure (e.phySlot.bus.setWidth 32)

/-- A call of a buzz function, where its module is loaded. -/
def buzzCall (symbol : BuzzSymbol) (ask : DriverCode (Option Text)) : DriverCode (Option Text) := do
  let found ← free (.symbolGet symbol)
  if found = false then pure none
  else do
    let reply ← ask
    free (.symbolPut symbol)
    pure reply

abbrev ambaPciNetInfoMax : Nat := 32

def pcieNetReadEntry (index : Fin ambaPciDevMax) (size : Nat) : DriverCode (Except Int Text) := do
  let e ← peek index
  if e.inUse = false then pure (.error (-enodev))
  else do
    let bus ← entryBus index
    let net ← buzzCall .busNetGet (free (.busNetGet index bus ambaPciNetInfoMax))
    match net with
    | none => pure (.ok (invalidText size))
    | some net => pure (.ok (netText size net))

def pcieDevLogReadEntry (index : Fin ambaPciDevMax) (size : Nat) :
    DriverCode (Except Int Text) := do
  let e ← peek index
  if e.inUse = false then pure (.error (-enodev))
  else do
    let bus ← entryBus index
    let log ← buzzCall .busEpinfoRead (free (.busEpinfoRead index bus size))
    -- `ret <= 0`: no module, an error, or nothing read.
    if (log.getD []).isEmpty then pure (.ok (invalidText size))
    else pure (.ok (log.getD []))

def pcieProcStatusRead (index : Fin ambaPciDevMax) (nbytes ppos : Nat) : DriverCode Int :=
  pcieProcRead index .status pageSize (pcieStatusReadEntry index) nbytes ppos

def pcieProcDevInfoRead (pciName : PciDev → Text) (index : Fin ambaPciDevMax) (nbytes ppos : Nat) :
    DriverCode Int :=
  pcieProcRead index .devInfo pageSize (pcieDevInfoReadEntry pciName index) nbytes ppos

def pcieProcNetRead (index : Fin ambaPciDevMax) (nbytes ppos : Nat) : DriverCode Int :=
  pcieProcRead index .net pageSize (pcieNetReadEntry index) nbytes ppos

def pcieProcDevLogRead (index : Fin ambaPciDevMax) (nbytes ppos : Nat) : DriverCode Int :=
  pcieProcRead index .devLog 0x200000 (pcieDevLogReadEntry index) nbytes ppos

/-- The workqueue runs `pcie_boot_timeout_fn`. -/
def bootTimeout (index : Fin ambaPciDevMax) : DriverCode Unit := do
  free (.workBegins index)
  underLock (Access.pcieBootTimeoutFn index)

/-- What it returns is left out. -/
def call {α : Type} (program : DriverCode α) : DriverCode Unit := do
  let _ ← program
  pure ()

end DriverCode

/-- The sections under the lock, with what has been checked before. -/
inductive DriverSection (t : Timing) : (α : Type) → Access α → Prop
  | notify (action : BusAction) (pdev : PciDev) :
      DriverSection t Unit (Access.pciePciBusNotify action pdev)
  | enumerate (present : List PciDev) :
      DriverSection t Unit (Access.pcieEnumerateExistedDevs present)
  | query : DriverSection t (List DevInfo) Access.pcieQueryPlatformInfoLocked
  | devInfo (index : Fin ambaPciDevMax) :
      DriverSection t (DevInfo × Entry) (Access.pcieDevInfoReadLocked index)
  | xferFirmware (req : FwXfer) (index : Fin ambaPciDevMax) (accepted : fwXferAccepted req = true)
      (addressed : req.slotId.toNat = index.val) :
      DriverSection t Int (Access.pcieXferFirmwareLocked t req index)
  | reboot (index : Fin ambaPciDevMax) : DriverSection t Int (Access.pcieRebootLocked index)
  | h2d (index : Fin ambaPciDevMax) : DriverSection t Entry (Access.read index)
  | bootTimeout (index : Fin ambaPciDevMax) :
      DriverSection t Unit (Access.pcieBootTimeoutFn index)

/-- What runs between module init's zeroing of the table and module exit: the notifier, the scan of
module init, the ioctls, the proc handlers and the work function. -/
inductive DriverRuns (t : Timing) (pciName : PciDev → Text) : DriverCode Unit → Prop
  | notify (action : BusAction) (pdev : PciDev) :
      DriverRuns t pciName (DriverCode.busNotify action pdev)
  | enumerate (present : List PciDev) :
      DriverRuns t pciName (DriverCode.underLock (Access.pcieEnumerateExistedDevs present))
  | query (argp : BitVec 64) :
      DriverRuns t pciName (DriverCode.call (DriverCode.pcieIoctlQueryPlatformInfo argp))
  | xferFirmware (argp : Option FwXfer) :
      DriverRuns t pciName (DriverCode.call (DriverCode.pcieIoctlXferFirmware t argp))
  | h2dSend (ioctl : H2dCall) :
      DriverRuns t pciName (DriverCode.call (DriverCode.pcieIoctlH2dSend ioctl))
  | statusRead (index : Fin ambaPciDevMax) (nbytes ppos : Nat) :
      DriverRuns t pciName (DriverCode.call (DriverCode.pcieProcStatusRead index nbytes ppos))
  | devInfoRead (index : Fin ambaPciDevMax) (nbytes ppos : Nat) :
      DriverRuns t pciName
        (DriverCode.call (DriverCode.pcieProcDevInfoRead pciName index nbytes ppos))
  | netRead (index : Fin ambaPciDevMax) (nbytes ppos : Nat) :
      DriverRuns t pciName (DriverCode.call (DriverCode.pcieProcNetRead index nbytes ppos))
  | devLogRead (index : Fin ambaPciDevMax) (nbytes ppos : Nat) :
      DriverRuns t pciName (DriverCode.call (DriverCode.pcieProcDevLogRead index nbytes ppos))
  | rebootWrite (index : Fin ambaPciDevMax) (buf : BitVec 64) (count ppos : Nat) :
      DriverRuns t pciName (DriverCode.call (DriverCode.pcieProcRebootWrite t index buf count ppos))
  | bootTimeout (index : Fin ambaPciDevMax) : DriverRuns t pciName (DriverCode.bootTimeout index)

/-! The programs that call no other module -/

abbrev DriverOp : Type := LockedOp AccessOp FreeOp

/-- No step of an H2D path, and none that has to do with the buzz module. -/
def FreeOp.Plain : FreeOp → Prop
  | .h2d _ => False
  | .symbolGet _ => False
  | .symbolPut _ => False
  | .busNetGet _ _ _ => False
  | .busEpinfoRead _ _ _ => False
  | _ => True

def DriverOp.Plain : DriverOp → Prop
  | .outer op => op.Plain
  | _ => True

variable {t : Timing} {α : Type}

theorem free_plain (op : FreeOp) (plain : op.Plain) : (DriverCode.free op).Calls DriverOp.Plain :=
  ⟨plain, fun _ => trivial⟩

theorem underLock_plain {body : Access α} : (DriverCode.underLock body).Calls DriverOp.Plain := by
  refine ⟨trivial, fun _ => Prog.Calls.bind ?_ fun value => ⟨trivial, fun _ => trivial⟩⟩
  have handled : ∀ op : AccessOp, (Prog.perform (LockedOp.inner op) :
      DriverCode op.Reply).Calls DriverOp.Plain := fun _ => ⟨trivial, fun _ => trivial⟩
  exact Prog.Calls.interp (fun op _ => handled op) (Prog.calls_anything body)

theorem nullDereference_plain : (DriverCode.nullDereference : DriverCode α).Calls DriverOp.Plain :=
  ⟨trivial, fun impossible => nomatch impossible⟩

theorem callStep_plain (t : Timing) (op : CallOp) :
    (DriverCode.callStep t op).Calls DriverOp.Plain := by
  cases op with
  | inUse index => exact (free_plain (.peek index) trivial).bind fun _ => trivial
  | readPdev index => exact (free_plain (.peek index) trivial).bind fun _ => trivial
  | rebootLocked index => exact underLock_plain
  | xferFirmwareLocked req index => exact underLock_plain
  | stopAndRemove pdev =>
      cases pdev with
      | none => exact nullDereference_plain
      | some pdev =>
          apply (free_plain (.isAdded pdev) trivial).bind; intro added
          split
          · exact underLock_plain
          · trivial
  | kernel op => exact free_plain _ trivial

theorem call_plain {program : DriverCode α} (calls : program.Calls DriverOp.Plain) :
    (DriverCode.call program).Calls DriverOp.Plain := calls.bind fun _ => trivial

theorem pcieIoctlQueryPlatformInfo_plain (argp : BitVec 64) :
    (DriverCode.pcieIoctlQueryPlatformInfo argp).Calls DriverOp.Plain := by
  unfold DriverCode.pcieIoctlQueryPlatformInfo
  split
  · trivial
  · apply underLock_plain.bind; intro devs
    apply (free_plain (.copyInfo _) trivial).bind; intro copied
    split
    · trivial
    · trivial

theorem pcieIoctlXferFirmware_plain (t : Timing) (argp : Option FwXfer) :
    (DriverCode.pcieIoctlXferFirmware t argp).Calls DriverOp.Plain :=
  Prog.Calls.interp (fun op _ => callStep_plain t op) (Prog.calls_anything _)

theorem pcieProcRebootWrite_plain (t : Timing) (index : Fin ambaPciDevMax) (buf : BitVec 64)
    (count ppos : Nat) :
    (DriverCode.pcieProcRebootWrite t index buf count ppos).Calls DriverOp.Plain :=
  Prog.Calls.interp (fun op _ => callStep_plain t op) (Prog.calls_anything _)

theorem bootTimeout_plain (index : Fin ambaPciDevMax) :
    (DriverCode.bootTimeout index).Calls DriverOp.Plain :=
  (free_plain (.workBegins index) trivial).bind fun _ => underLock_plain

end AmbaPci

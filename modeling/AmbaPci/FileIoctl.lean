import AmbaPci.H2d
import AmbaPci.XferOutcome

set_option autoImplicit false

/- `pcie_file_ioctl`: the four commands of the control node. The slot table is passed through the
section a command runs under the lock. -/
namespace AmbaPci

open Interaction

/-- `_IOC` with the magic 'P': direction (1 writes, 2 reads), size of the argument, and number. -/
def ioc (dir size nr : BitVec 32) : BitVec 32 :=
  dir <<< 30 ||| size <<< 16 ||| (0x50 : BitVec 32) <<< 8 ||| nr

def ambaPciQueryPlatformInfo : BitVec 32 := ioc 3 408 1
def ambaPciH2dSendFile : BitVec 32 := ioc 1 272 2
def ambaPciH2dSendBuffer : BitVec 32 := ioc 1 32 3
def ambaPciXferFirmware : BitVec 32 := ioc 1 96 4

/-- `struct amba_pci_platform_info`. -/
structure PlatformInfo where
  version : BitVec 32
  devNum : BitVec 32
  devs : List DevInfo
  deriving DecidableEq, Repr

/-- What a command calls: the copies of its argument, the services of the sections and of the H2D
paths, and after a firmware transfer the reads of `e_hot->pdev` and the removal. -/
inductive FileOp
  | copyXferFirmware (argp : BitVec 64)
  | copyH2dSendFile (argp : BitVec 64)
  | copyH2dSendBuffer (argp : BitVec 64)
  | copyToUser (argp : BitVec 64) (info : PlatformInfo)
  | kernel (op : Op)
  | h2d (op : H2dOp)
  | readPdev (index : Fin ambaPciDevMax)
  | stopAndRemove (pdev : Option PciDev)

/-- `copy_to_user` says whether everything was copied. -/
abbrev FileOp.Reply : FileOp → Type
  | .copyXferFirmware _ => Option FwXfer
  | .copyH2dSendFile _ => Option H2dSendFile
  | .copyH2dSendBuffer _ => Option H2dSendBuffer
  | .copyToUser _ _ => Bool
  | .kernel op => op.Reply
  | .h2d op => op.Reply
  | .readPdev _ => Option PciDev
  | .stopAndRemove _ => Unit

abbrev FileCall : Type → Type := Prog FileOp FileOp.Reply

abbrev FileOp.perform (op : FileOp) : FileCall op.Reply := Prog.perform op

def onKernel {α : Type} (program : Host α) : FileCall α :=
  program.interp fun op => FileOp.perform (.kernel op)

def onH2d {α : Type} (program : H2d α) : FileCall α :=
  program.interp fun op => FileOp.perform (.h2d op)

def pcieIoctlQueryPlatformInfo (argp : BitVec 64) (s : Platform) : FileCall (Int × Platform) :=
  if argp = 0 then pure (-einval, s)
  else do
    let (devs, s) ← onKernel (pcieQueryPlatformInfoLocked s)
    let validCount := (List.finRange ambaPciDevMax).countP fun i => (s.devs i).inUse
    let copied ← FileOp.perform (.copyToUser argp ⟨1, BitVec.ofNat 32 validCount, devs⟩)
    if copied = false then pure (-efault, s) else pure (0, s)

/-- The tail of `pcie_ioctl_xfer_firmware`, without the lock. -/
def pcieRemoveHot (req : Option FwXfer) (ret : Int) : FileCall Unit :=
  match req with
  | none => pure ()
  | some req =>
      if inside : req.slotId.toNat < ambaPciDevMax then
        if ret ≠ 0 then pure ()
        else do
          let tested ← FileOp.perform (.readPdev ⟨req.slotId.toNat, inside⟩)
          if tested.isNone then pure ()
          else do
            let pdev ← FileOp.perform (.readPdev ⟨req.slotId.toNat, inside⟩)
            FileOp.perform (.stopAndRemove pdev)
      else pure ()

/-- `pcie_ioctl_xfer_firmware` with its copy and its tail. -/
def pcieIoctlXferFirmwareWhole (t : Timing) (argp : BitVec 64) (s : Platform) :
    FileCall (Int × Platform) := do
  let req ← FileOp.perform (.copyXferFirmware argp)
  let (ret, s) ← onKernel (pcieIoctlXferFirmwareOn t req s)
  pcieRemoveHot req ret
  pure (ret, s)

/-- `reads` bounds how often the model follows the read loop of the file path. -/
def pcieFileIoctl (t : Timing) (reads : Nat) (cmd : BitVec 32) (arg : BitVec 64) (s : Platform) :
    FileCall (Int × Platform) :=
  if cmd = ambaPciQueryPlatformInfo then pcieIoctlQueryPlatformInfo arg s
  else if cmd = ambaPciXferFirmware then pcieIoctlXferFirmwareWhole t arg s
  else if cmd = ambaPciH2dSendFile then do
    let req ← FileOp.perform (.copyH2dSendFile arg)
    let ret ← onH2d (pcieIoctlH2dSendFile reads req)
    pure (ret, s)
  else if cmd = ambaPciH2dSendBuffer then do
    let req ← FileOp.perform (.copyH2dSendBuffer arg)
    let ret ← onH2d (pcieIoctlH2dSendBuffer req)
    pure (ret, s)
  else pure (-enotty, s)

end AmbaPci

import AmbaPci.XferFirmware

set_option autoImplicit false

/- The two functions that remove a device, `pcie_reboot_write_entry` with its caller and
`pcie_ioctl_xfer_firmware`, as programs: a section under the lock is one operation, and so is every
access without the lock. -/
namespace AmbaPci

open ByteMemory (Byte)
open Interaction

/-! The text written to the reboot node -/

/-- The characters of a C string: the bytes before the first NUL. -/
def cString (bytes : List Byte) : List Byte := bytes.takeWhile (· ≠ 0)

/-- `isspace` of the kernel: blank, tab to carriage return, and the no-break space. -/
def isSpace (c : Byte) : Bool := 9 ≤ c ∧ c ≤ 13 ∨ c = 32 ∨ c = 160

def isDigit (c : Byte) : Bool := 48 ≤ c ∧ c ≤ 57

/-- What `strim` leaves in the buffer: it cuts the trailing white space there; the leading white
space is only skipped by the pointer it returns. -/
def strim (s : List Byte) : List Byte := (s.reverse.dropWhile isSpace).reverse

/-- `_kstrtoull` in base 10: digits, then at most one newline. -/
def kstrtoull (s : List Byte) : Option Nat :=
  let digits := s.takeWhile isDigit
  let rest := s.dropWhile isDigit
  let value := digits.foldl (fun value c => value * 10 + (c.toNat - 48)) 0
  if digits.isEmpty ∨ 2 ^ 64 ≤ value then none
  else if rest = [] ∨ rest = [10] then some value
  else none

/-- `kstrtoint` in base 10: at most one sign, and the value of an `int`. -/
def kstrtoint (s : List Byte) : Option Int :=
  let signed : Option Int :=
    if s.head? = some 45 then (kstrtoull s.tail).map fun value => -(value : Int)
    else if s.head? = some 43 then (kstrtoull s.tail).map Int.ofNat
    else (kstrtoull s).map Int.ofNat
  signed.filter fun value => -2 ^ 31 ≤ value ∧ value < 2 ^ 31

/-- `cmd` of `pcie_reboot_write_entry`: the first 15 bytes are parsed. -/
def rebootCmd (buf : List Byte) : Option Int := kstrtoint (strim (cString (buf.take 15)))

/-! The calls -/

/-- The steps of a call. `stopAndRemove` is `pci_stop_and_remove_bus_device_locked`; its argument is
`none` for NULL. -/
inductive CallOp
  | inUse (index : Fin ambaPciDevMax)
  | readPdev (index : Fin ambaPciDevMax)
  | rebootLocked (index : Fin ambaPciDevMax)
  | xferFirmwareLocked (req : FwXfer) (index : Fin ambaPciDevMax)
  | stopAndRemove (pdev : Option PciDev)
  | kernel (op : Op)
  deriving DecidableEq

/-- The locked sections reply with `ret`. -/
abbrev CallOp.Reply : CallOp → Type
  | .inUse _ => Bool
  | .readPdev _ => Option PciDev
  | .rebootLocked _ => Int
  | .xferFirmwareLocked _ _ => Int
  | .stopAndRemove _ => Unit
  | .kernel op => op.Reply

abbrev Call : Type → Type := Prog CallOp CallOp.Reply

abbrev CallOp.perform (op : CallOp) : Call op.Reply := Prog.perform op

def pcieRebootWriteEntry (index : Fin ambaPciDevMax) (buf : List Byte) : Call Int := do
  let inUse ← CallOp.perform (.inUse index)
  if inUse = false then pure (-enodev)
  else if buf.isEmpty then pure (-einval)
  else if rebootCmd buf ≠ some 1 then pure (-einval)
  else do
    let ret ← CallOp.perform (.rebootLocked index)
    if ret ≠ 0 then pure ret
    else do
      let pdev ← CallOp.perform (.readPdev index)
      CallOp.perform (.stopAndRemove pdev)
      pure (buf.length : Int)

/-- `pcie_proc_reboot_write`, for `count` bytes at `buf` in user memory. -/
def pcieProcRebootWrite (index : Fin ambaPciDevMax) (buf : BitVec 64) (count ppos : Nat) :
    Call Int :=
  if ppos ≠ 0 then pure (-einval)
  else if 32 < count then pure (-einval)
  else do
    let kbuf ← CallOp.perform (.kernel (.kmalloc (count + 1)))
    if kbuf = false then pure (-enomem)
    else do
      let copied ← CallOp.perform (.kernel (.copyFromUser buf count))
      match copied with
      | none => pure (-efault)
      | some bytes => pcieRebootWriteEntry index bytes.toList

/-- `pcie_ioctl_xfer_firmware`, on what `copy_from_user` fetches of the request. The section leaves
`e_hot` set exactly when it returns 0; `e_hot->pdev` is read for the test and again for the call. -/
def pcieIoctlXferFirmwareCall (argp : Option FwXfer) : Call Int :=
  match argp with
  | none => pure (-efault)
  | some req =>
      if inside : req.slotId.toNat < ambaPciDevMax then
        if fwXferAccepted req = false then pure (-einval)
        else do
          let ret ← CallOp.perform (.xferFirmwareLocked req ⟨req.slotId.toNat, inside⟩)
          if ret ≠ 0 then pure ret
          else do
            let tested ← CallOp.perform (.readPdev ⟨req.slotId.toNat, inside⟩)
            if tested.isNone then pure ret
            else do
              let pdev ← CallOp.perform (.readPdev ⟨req.slotId.toNat, inside⟩)
              CallOp.perform (.stopAndRemove pdev)
              pure ret
      else pure (-einval)

/-- The text "1", with and without a line end; a leading blank is refused. -/
example : rebootCmd [49] = some 1 ∧ rebootCmd [49, 10] = some 1 ∧ rebootCmd [32, 49] = none := by
  decide

end AmbaPci

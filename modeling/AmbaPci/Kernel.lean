import AmbaPci.Interaction
import AmbaPci.Ioctl

set_option autoImplicit false

/- The driver's data (`amba_pci_platform_internal.h`, `amba_pci_platform_table.c`) and the kernel
services its code calls. A driver function is a program over these services; what they reply is
left open here. -/
namespace AmbaPci

open ByteMemory (Byte)
open Interaction

/-- One BAR of a `struct pci_dev`: whether it is a memory BAR, and `pci_resource_len`. -/
structure Bar where
  mem : Bool
  len : BitVec 64
  deriving DecidableEq, Repr

abbrev pciStdNumBars : Nat := 6

/-- What the driver reads of a `struct pci_dev`. `ref` tells two kernel objects apart that agree in
everything else, as two pointers do. -/
structure PciDev where
  ref : Nat
  domain : BitVec 32
  bus : BitVec 8
  devfn : BitVec 8
  vendor : BitVec 16
  device : BitVec 16
  classCode : BitVec 32
  bars : Vector Bar pciStdNumBars
  deriving DecidableEq, Repr

def pciResourceLen (pdev : PciDev) (bar : Fin pciStdNumBars) : BitVec 64 :=
  (pdev.bars.get bar).len

/-- The cookie of one `pci_iomap`. -/
abbrev Mapping := Nat

/-- `struct pci_dev_board_info`. -/
structure BoardInfo where
  id : BitVec 32 := 0
  vers : BitVec 32 := 0
  poc : BitVec 32 := 0
  dramSizeMb : BitVec 32 := 0
  dramType : Vector Byte 8 := Vector.replicate 8 0
  date : Vector Byte 32 := Vector.replicate 32 0
  deriving DecidableEq, Repr

/-- Where a delayed work item stands: no timer, its timer armed, or expired and queued. -/
inductive WorkPending
  | idle
  | armed
  | queued
  deriving DecidableEq, Repr

/-- `struct delayed_work`. `running` says that the work function has started and has not returned;
it can be pending again meanwhile. -/
structure DelayedWork where
  pending : WorkPending := .idle
  running : Bool := false
  deriving DecidableEq, Repr

/-- `struct pcie_physical_slot`. -/
structure PhysicalSlot where
  bus : BitVec 8 := 0
  targetVendor : BitVec 16 := 0
  targetDevice : BitVec 16 := 0
  deriving DecidableEq, Repr

def pciePhysicalSlots (index : Fin ambaPciDevMax) : PhysicalSlot where
  bus := BitVec.ofNat 8 (index.val + 1)
  targetVendor := ambaPciTargetVendorId
  targetDevice := ambaPciTargetDeviceId

/-- `struct pcie_dev_entry`. The defaults are those of the zeroed module data. `procDir` says that
the pointer is not NULL; `procName` is the index in "pcie_%d", or `none` for the empty name. -/
structure Entry where
  pdev : Option PciDev := none
  id : BitVec 32 := 0
  procDir : Bool := false
  procName : Option Nat := none
  inUse : Bool := false
  state : DevState := .disconnected
  phySlot : PhysicalSlot := {}
  bootBar : Int := 0
  bootLen : BitVec 64 := 0
  bootMemBase : Option Mapping := none
  boardInfo : BoardInfo := {}
  boardInfoIsUpdated : Bool := false
  bootTimeoutWork : DelayedWork := {}
  deriving DecidableEq, Repr

/-- What the lock `g_pcie_drv.lock` protects of `struct amba_pci_platform`. `procRoot` says that
the pointer is not NULL. -/
structure Platform where
  devs : Fin ambaPciDevMax → Entry
  nextDevId : BitVec 32
  procRoot : Bool

def Platform.setDev (s : Platform) (index : Fin ambaPciDevMax) (e : Entry) : Platform :=
  { s with devs := fun other => if other = index then e else s.devs other }

@[simp] theorem Platform.setDev_same (s : Platform) (index : Fin ambaPciDevMax) (e : Entry) :
    (s.setDev index e).devs index = e := by
  simp only [Platform.setDev, ↓reduceIte]

theorem Platform.setDev_other (s : Platform) (index other : Fin ambaPciDevMax) (e : Entry)
    (apart : other ≠ index) : (s.setDev index e).devs other = s.devs other := by
  simp only [Platform.setDev, apart, ↓reduceIte]

@[simp] theorem Platform.setDev_setDev (s : Platform) (index : Fin ambaPciDevMax) (e e' : Entry) :
    (s.setDev index e).setDev index e' = s.setDev index e' := by
  simp only [Platform.setDev, Platform.mk.injEq, and_self, and_true]
  funext other
  split
  · rfl
  · rfl

@[simp] theorem Platform.setDev_procRoot (s : Platform) (index : Fin ambaPciDevMax) (e : Entry) :
    (s.setDev index e).procRoot = s.procRoot := rfl

@[simp] theorem Platform.setDev_self (s : Platform) (index : Fin ambaPciDevMax) :
    s.setDev index (s.devs index) = s := by
  obtain ⟨devs, nextDevId, procRoot⟩ := s
  simp only [Platform.setDev, Platform.mk.injEq, and_self, and_true]
  funext other
  split
  · rename_i same
    rw [same]
  · rfl

/-- The source function that performs a ring access. -/
inductive RingFn
  | waitU32
  | xferPoll
  | readBoardInfo
  | ctxInit
  | postData
  | postCmd
  deriving DecidableEq, Repr

/-- The proc nodes of one slot, in the order they are created. -/
inductive ProcNode
  | status
  | devInfo
  | net
  | devLog
  | reboot
  deriving DecidableEq, Repr

/-- What `struct resource` says of a BAR's assignment when it is read. -/
structure BarStatus where
  unset : Bool
  hasParent : Bool
  start : BitVec 64
  deriving DecidableEq, Repr

/-- The kernel services called between taking and releasing the driver lock, or outside it.
Ring accesses name the mapping, the offset in it and the function that performs them. -/
inductive Op
  | readl (fn : RingFn) (base : Mapping) (off : Nat)
  | writel (fn : RingFn) (base : Mapping) (off : Nat) (value : BitVec 32)
  | memcpyToio (fn : RingFn) (base : Mapping) (off : Nat) (bytes : List Byte)
  | jiffies
  | usleepRange
  | msleep (ms : Nat)
  | kmalloc (size : Nat)
  | copyFromUser (src : BitVec 64) (length : Nat)
  | pciWriteConfigByte (pdev : PciDev) (register : Nat) (value : BitVec 8)
  | barStatus (pdev : PciDev) (bar : Int)
  | pciIomap (pdev : PciDev) (bar : Int) (length : BitVec 64)
  | pciIounmap (pdev : PciDev) (base : Mapping)
  | pciDevGet (pdev : PciDev)
  | pciDevPut (pdev : PciDev)
  | pciSetMaster (pdev : PciDev)
  | procMkdir (name : Nat)
  | procCreateData (name : Nat) (node : ProcNode)
  /-- `remove_proc_subtree`, first half: no handler can enter the subtree any more. -/
  | procUnlink (name : Option Nat)
  /-- `remove_proc_subtree`, second half: wait for the handlers that are still inside. -/
  | procDrain (name : Option Nat)
  /-- A polling loop has used up the iterations the model gives it; it is still polling. -/
  | spin
  /-- A NULL pointer is dereferenced. -/
  | oops
  deriving DecidableEq, Repr

/-- `copy_from_user` replies with the bytes, or `none` when it faults; `kmalloc`, `proc_mkdir` and
`proc_create_data` say whether they succeeded. Nothing comes back from `spin` and `oops`. -/
abbrev Op.Reply : Op → Type
  | .readl _ _ _ => BitVec 32
  | .jiffies => BitVec 64
  | .kmalloc _ => Bool
  | .copyFromUser _ length => Option (Vector Byte length)
  | .pciWriteConfigByte _ _ _ => Int
  | .barStatus _ _ => BarStatus
  | .pciIomap _ _ _ => Option Mapping
  | .procMkdir _ => Bool
  | .procCreateData _ _ => Bool
  | .spin => Empty
  | .oops => Empty
  | _ => Unit

abbrev Host : Type → Type := Prog Op Op.Reply

abbrev perform (op : Op) : Host op.Reply := Prog.perform op

def spin {α : Type} : Host α := .call .spin fun impossible => nomatch impossible

def oops {α : Type} : Host α := .call .oops fun impossible => nomatch impossible

/-- The reply set of an interface that promises nothing. -/
def anyReply : (op : Op) → op.Reply → Prop := fun _ _ => True

end AmbaPci

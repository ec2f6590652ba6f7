import AmbaPci.DriverCalls
import AmbaPci.InteractionPool
import AmbaPci.SlotSections

set_option autoImplicit false

/- The driver's threads and what they can wait for: the driver lock, the rescan lock of the PCI
core, and the handlers inside the proc entries that a thread removes. -/
namespace AmbaPci

open Interaction

/-- `g_pcie_drv.lock`, and the lock of `pci_lock_rescan_remove`. -/
inductive LockName
  | driver
  | rescan
  deriving DecidableEq, Repr

/-- The steps of a thread. A section reads `g_pcie_drv` with `table` and writes it with `setTable`;
`peek` reads one entry without the lock. -/
inductive ThreadOp
  | lock (name : LockName)
  | unlock (name : LockName)
  | table
  | setTable (s : Platform)
  | peek (index : Fin ambaPciDevMax)
  | clearProcRoot
  | kernel (op : Op)
  /-- Whether the PCI core still has the device on its bus and notifies its removal. -/
  | isAdded (pdev : PciDev)
  /-- procfs calls the handler of an entry, unless the entry has been removed. -/
  | procEnter (index : Fin ambaPciDevMax) (node : ProcNode)
  | procLeave
  /-- `proc_remove` of the driver's own directory, in two halves as `remove_proc_subtree`. -/
  | procUnlinkRoot
  | procDrainRoot

abbrev ThreadOp.Reply : ThreadOp → Type
  | .table => Platform
  | .peek _ => Entry
  | .kernel op => op.Reply
  | .isAdded _ => Bool
  | .procEnter _ _ => Bool
  | _ => Unit

abbrev Thread : Type → Type := Prog ThreadOp ThreadOp.Reply

abbrev ThreadOp.perform (op : ThreadOp) : Thread op.Reply := Prog.perform op

/-- Code of the driver as steps of a thread. -/
def kernelCalls {α : Type} (program : Host α) : Thread α :=
  program.interp fun op => ThreadOp.perform (.kernel op)

/-- A section under `g_pcie_drv.lock`. -/
def lockedSection {α : Type} (body : Platform → Host (α × Platform)) : Thread α := do
  ThreadOp.perform (.lock .driver)
  let s ← ThreadOp.perform .table
  let result ← kernelCalls (body s)
  ThreadOp.perform (.setTable result.2)
  ThreadOp.perform (.unlock .driver)
  pure result.1

/-- `pcie_pci_bus_notify`. -/
def busNotify (action : BusAction) (pdev : PciDev) : Thread Unit :=
  lockedSection fun s => do
    let s ← pciePciBusNotify action pdev s
    pure ((), s)

def busNotifyAll (action : BusAction) : List PciDev → Thread Unit
  | [] => pure ()
  | pdev :: rest => do
      busNotify action pdev
      busNotifyAll action rest

/-- What runs between `pci_lock_rescan_remove` and `pci_unlock_rescan_remove`. -/
def rescanLocked (body : Thread Unit) : Thread Unit := do
  ThreadOp.perform (.lock .rescan)
  body
  ThreadOp.perform (.unlock .rescan)

/-- The PCI core adds or removes devices. -/
def hotplug (action : BusAction) (pdevs : List PciDev) : Thread Unit :=
  rescanLocked (busNotifyAll action pdevs)

/-- `pci_stop_and_remove_bus_device`. -/
def pciStopAndRemoveBusDevice : Option PciDev → Thread Unit
  | none => kernelCalls oops
  | some pdev => do
      let added ← ThreadOp.perform (.isAdded pdev)
      if added then busNotify .delDevice pdev

def pciStopAndRemoveBusDeviceLocked (pdev : Option PciDev) : Thread Unit :=
  rescanLocked (pciStopAndRemoveBusDevice pdev)

/-- The steps of `pcie_reboot_write_entry` and `pcie_ioctl_xfer_firmware` with their locks. -/
def callThread (t : Timing) : (op : CallOp) → Thread op.Reply
  | .inUse index => do
      let e ← ThreadOp.perform (.peek index)
      pure e.inUse
  | .readPdev index => do
      let e ← ThreadOp.perform (.peek index)
      pure e.pdev
  | .rebootLocked index =>
      lockedSection fun s => do
        let (ret, e) := pcieRebootLocked (s.devs index)
        pure (ret, s.setDev index e)
  | .xferFirmwareLocked req index =>
      lockedSection fun s => do
        let (ret, e) ← pcieXferFirmwareLocked t req (s.devs index)
        pure (ret, s.setDev index e)
  | .stopAndRemove pdev => pciStopAndRemoveBusDeviceLocked pdev
  | .kernel op => ThreadOp.perform (.kernel op)

/-- procfs counts a handler as inside its entry until it has returned. -/
def procCall {α : Type} (index : Fin ambaPciDevMax) (node : ProcNode) (handler : Thread α) :
    Thread Unit := do
  let entered ← ThreadOp.perform (.procEnter index node)
  if entered then do
    let _ ← handler
    ThreadOp.perform .procLeave

abbrev pageSize : Nat := 4096

/-- `pcie_proc_dev_info_read`, up to the text it formats and copies. -/
def devInfoRead (index : Fin ambaPciDevMax) : Thread Unit := do
  let kbuf ← ThreadOp.perform (.kernel (.kmalloc pageSize))
  if kbuf then do
    let _ ← lockedSection (pcieDevInfoReadLocked index)
    pure ()

/-- `amba_pci_platform_exit`, from its locked section to the end of the proc files. -/
def ambaPciPlatformExit : Thread Unit := do
  lockedSection fun s => do
    let s ← ambaPciPlatformExitLocked s
    pure ((), s)
  -- Nobody else writes `proc_root` once the driver is loaded.
  let s ← ThreadOp.perform .table
  if s.procRoot then do
    ThreadOp.perform .procUnlinkRoot
    ThreadOp.perform .procDrainRoot
    ThreadOp.perform .clearProcRoot

/-- The programs that threads start, any number of times each. What they return is left out. -/
inductive DriverThread (t : Timing) : Thread Unit → Prop
  | hotplug (action : BusAction) (pdevs : List PciDev) : DriverThread t (hotplug action pdevs)
  | devInfoRead (index : Fin ambaPciDevMax) :
      DriverThread t (procCall index .devInfo (devInfoRead index))
  | rebootWrite (index : Fin ambaPciDevMax) (buf : BitVec 64) (count ppos : Nat) :
      DriverThread t
        (procCall index .reboot ((pcieProcRebootWrite index buf count ppos).interp (callThread t)))
  | xferFirmware (argp : Option FwXfer) :
      DriverThread t (do
        let _ ← (pcieIoctlXferFirmwareCall argp).interp (callThread t)
        pure ())
  | queryPlatformInfo :
      DriverThread t (do
        let _ ← lockedSection pcieQueryPlatformInfoLocked
        pure ())
  | bootTimeout (index : Fin ambaPciDevMax) :
      DriverThread t (lockedSection fun s =>
        pure ((), s.setDev index (pcieBootTimeoutFn (s.devs index))))
  | exit : DriverThread t ambaPciPlatformExit

/-! What the steps do -/

/-- The driver's table, who holds each lock, the proc entries that exist by the number of their
directory, and the entry whose handler a thread is in. -/
structure LockWorld where
  table : Platform
  owner : LockName → Option Nat
  nodes : Nat → ProcNode → Bool
  inside : Nat → Option (Nat × ProcNode)

/-- The kernel's part in the proc files. No other call of the driver concerns who waits. -/
def kernelAnswer : LockWorld → (op : Op) → op.Reply → LockWorld → Prop
  | s, .procCreateData name node, created, s' =>
      s' = if created then
        { s with nodes := Function.update s.nodes name (Function.update (s.nodes name) node true) }
        else s
  | s, .procUnlink (some name), _, s' =>
      s' = { s with nodes := Function.update s.nodes name fun _ => false }
  | s, .procDrain (some name), _, s' =>
      (∀ other node, s.inside other ≠ some (name, node)) ∧ s' = s
  | s, _, _, s' => s' = s

/-- A section writes the table back at its end. Without the lock an entry may be seen half changed
while a section is under way. -/
def threadAnswer (tid : Nat) : LockWorld → (op : ThreadOp) → op.Reply → LockWorld → Prop
  | s, .lock name, _, s' =>
      s.owner name = none ∧ s' = { s with owner := Function.update s.owner name (some tid) }
  | s, .unlock name, _, s' => s' = { s with owner := Function.update s.owner name none }
  | s, .table, table, s' => table = s.table ∧ s' = s
  | s, .setTable table, _, s' =>
      s' = { s with table := { table with procRoot := s.table.procRoot } }
  | s, .peek index, e, s' => (s.owner .driver = none → e = s.table.devs index) ∧ s' = s
  | s, .clearProcRoot, _, s' => s' = { s with table := { s.table with procRoot := false } }
  | s, .kernel op, reply, s' => kernelAnswer s op reply s'
  | s, .isAdded _, _, s' => s' = s
  | s, .procEnter index node, entered, s' =>
      entered = s.nodes index node ∧
        s' = if entered then
          { s with inside := Function.update s.inside tid (some (index.val, node)) } else s
  | s, .procLeave, _, s' => s' = { s with inside := Function.update s.inside tid none }
  | s, .procUnlinkRoot, _, s' => s' = { s with nodes := fun _ _ => false }
  | s, .procDrainRoot, _, s' => (∀ other, s.inside other = none) ∧ s' = s

def threadSystem : System Nat ThreadOp ThreadOp.Reply LockWorld where
  answer := threadAnswer
  interfere _ _ := False

abbrev Threads : Type := Pool Nat ThreadOp ThreadOp.Reply LockWorld Unit

/-- No thread runs, and nobody holds a lock. -/
def restingThreads (table : Platform) (nodes : Nat → ProcNode → Bool) : Threads where
  threads _ := .done ()
  shared := ⟨table, fun _ => none, nodes, fun _ => none⟩

/-- The first thread can only go on once the other one has done something. -/
def Threads.Waits (pool : Threads) (tid other : Nat) : Prop :=
  match (pool.threads tid).nextOp with
  | some (.lock name) => pool.shared.owner name = some other
  | some (.kernel (.procDrain (some name))) =>
      ∃ node, pool.shared.inside other = some (name, node)
  | some .procDrainRoot => (pool.shared.inside other).isSome
  | _ => False

def ThreadOp.MayWait : ThreadOp → Prop
  | .lock _ => True
  | .kernel (.procDrain _) => True
  | .procDrainRoot => True
  | _ => False

/-- Where a slot's entries are removed, the handlers still inside them have taken and released
their locks: nothing they can still do waits. -/
def HandlersPast (pool : Threads) (_ : Nat) : ThreadOp → Prop
  | .kernel (.procUnlink (some name)) =>
      ∀ other node, pool.shared.inside other = some (name, node) →
        (pool.threads other).Calls fun op => ¬ op.MayWait
  | _ => True

/-- The pools that the driver's threads lead to, from any table and any proc entries, where every
step meets the condition. -/
abbrev ThreadRun (t : Timing) (cond : Threads → Nat → ThreadOp → Prop) (table : Platform)
    (nodes : Nat → ProcNode → Bool) : Threads → Prop :=
  Pool.Reach threadSystem (DriverThread t) cond (restingThreads table nodes)

end AmbaPci

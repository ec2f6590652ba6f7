import AmbaPci.SlotSections

set_option autoImplicit false

/- The locked sections of the driver once more, one access to `g_pcie_drv` after the other: other
threads that read without the lock, and timers, can come between any two. -/
namespace AmbaPci

open Interaction

/-- One assignment to a field of a `struct pcie_dev_entry`. -/
inductive EntryWrite
  | pdev (pdev : Option PciDev)
  | id (id : BitVec 32)
  | procDir (made : Bool)
  | procName (name : Option Nat)
  | inUse (used : Bool)
  | state (state : DevState)
  | phySlot (slot : PhysicalSlot)
  | bootBar (bar : Int)
  | bootLen (length : BitVec 64)
  | bootMemBase (base : Option Mapping)
  | boardInfo (info : BoardInfo)
  | boardInfoIsUpdated (updated : Bool)

def Entry.store (e : Entry) : EntryWrite → Entry
  | .pdev pdev => { e with pdev }
  | .id id => { e with id }
  | .procDir made => { e with procDir := made }
  | .procName name => { e with procName := name }
  | .inUse used => { e with inUse := used }
  | .state state => { e with state }
  | .phySlot slot => { e with phySlot := slot }
  | .bootBar bar => { e with bootBar := bar }
  | .bootLen length => { e with bootLen := length }
  | .bootMemBase base => { e with bootMemBase := base }
  | .boardInfo info => { e with boardInfo := info }
  | .boardInfoIsUpdated updated => { e with boardInfoIsUpdated := updated }

/-- What can be read of an entry: all but its delayed work, which only the workqueue looks into. -/
def Entry.seen (e : Entry) : Entry := { e with bootTimeoutWork := {} }

/-- `read` is the read of one field; it shows the entry at that moment. `workLeaves` stands for the
return of the work function that runs. -/
inductive AccessOp
  | read (index : Fin ambaPciDevMax)
  | write (index : Fin ambaPciDevMax) (field : EntryWrite)
  | cancelWork (index : Fin ambaPciDevMax)
  | scheduleWork (index : Fin ambaPciDevMax)
  | workLeaves (index : Fin ambaPciDevMax)
  | nextDevId
  | setNextDevId (id : BitVec 32)
  | procRoot
  | kernel (op : Op)

abbrev AccessOp.Reply : AccessOp → Type
  | .read _ => Entry
  | .nextDevId => BitVec 32
  | .procRoot => Bool
  | .kernel op => op.Reply
  | _ => Unit

abbrev Access : Type → Type := Prog AccessOp AccessOp.Reply

abbrev AccessOp.perform (op : AccessOp) : Access op.Reply := Prog.perform op

namespace Access

abbrev read (index : Fin ambaPciDevMax) : Access Entry := AccessOp.perform (.read index)

abbrev write (index : Fin ambaPciDevMax) (field : EntryWrite) : Access Unit :=
  AccessOp.perform (.write index field)

abbrev kernel (op : Op) : Access op.Reply := AccessOp.perform (.kernel op)

/-- Code that does not touch `g_pcie_drv`. -/
def onHost {α : Type} (program : Host α) : Access α :=
  program.interp fun op => AccessOp.perform (.kernel op)

/-- `e->pdev` as an argument that is dereferenced. -/
def withPdev {α : Type} (index : Fin ambaPciDevMax) (next : PciDev → Access α) : Access α := do
  let e ← read index
  match e.pdev with
  | none => onHost oops
  | some pdev => next pdev

/-! The boot BAR -/

def pcieBootBarFind (index : Fin ambaPciDevMax) (pdev : PciDev) : Access Int :=
  match AmbaPci.pcieBootBarFind pdev with
  | none => pure (-enxio)
  | some bar => do
      write index (.bootBar (bar.val : Int))
      write index (.bootLen (pciResourceLen pdev bar))
      pure 0

/-- `pcie_map_boot_bar` from its look at the resource on. -/
def pcieMapFoundBar (index : Fin ambaPciDevMax) : Access Int :=
  withPdev index fun pdev => do
    let e ← read index
    let res ← kernel (.barStatus pdev e.bootBar)
    if res.unset || !res.hasParent || res.start == 0 then pure (-enxio)
    else do
      let ret ← onHost (pcieEnableMemIoResource pdev)
      if ret ≠ 0 then pure ret
      else do
        let e ← read index
        let base ← kernel (.pciIomap pdev e.bootBar e.bootLen)
        write index (.bootMemBase base)
        match base with
        | none => pure (-eio)
        | some _ => pure 0

def pcieMapBootBar (index : Fin ambaPciDevMax) : Access Int := do
  let e ← read index
  if e.bootBar < 0 ∨ e.bootLen = 0 then
    withPdev index fun pdev => do
      let ret ← pcieBootBarFind index pdev
      if ret ≠ 0 then pure ret else pcieMapFoundBar index
  else pcieMapFoundBar index

def pcieBootBarMapRetry (index : Fin ambaPciDevMax) : Nat → Int → Access Int
  | 0, ret => pure ret
  | attempts + 1, _ => do
      let ret ← pcieMapBootBar index
      if ret = 0 then pure ret
      else if ret ≠ -enxio then pure ret
      else do
        kernel (.msleep pcieBootBarMapRetryMs)
        pcieBootBarMapRetry index attempts ret

def pcieBootBarEnsureMapped (index : Fin ambaPciDevMax) : Access Int := do
  let e ← read index
  if e.bootMemBase.isSome then pure 0
  else do
    let ret ← pcieBootBarMapRetry index pcieBootBarMapRetryMax 0
    if ret = -enxio then pure (-etimedout) else pure ret

def pcieBootBarUnmap (index : Fin ambaPciDevMax) : Access Unit := do
  let e ← read index
  match e.bootMemBase with
  | none => pure ()
  | some base =>
      withPdev index fun pdev => do
        kernel (.pciIounmap pdev base)
        write index (.bootMemBase none)

/-! The slot table -/

def refreshBootMapping (index : Fin ambaPciDevMax) : Access Int := do
  let e ← read index
  if e.bootMemBase.isNone then pcieBootBarEnsureMapped index else pure 0

def pcieDevRefreshBoardInfoLocked (index : Fin ambaPciDevMax) : Access Int := do
  let e ← read index
  if e.state ≠ .disconnected then pure 0
  else do
    let e ← read index
    match e.pdev with
    | none => pure (-enodev)
    | some _ => do
        let ret ← refreshBootMapping index
        if ret ≠ 0 then pure ret
        else do
          let e ← read index
          match e.boardInfoIsUpdated, e.bootMemBase with
          | false, some base => do
              let bd ← onHost (pcieRingReadBoardInfo base)
              write index (.boardInfo bd)
              write index (.boardInfoIsUpdated true)
              pure ret
          | _, _ => pure ret

def pcieQueryDevInfoLocked (index : Fin ambaPciDevMax) (slot : Nat) : Access DevInfo := do
  let e ← read index
  let dst : DevInfo :=
    { id := e.id, slotId := BitVec.ofNat 32 slot, state := e.state,
      isValid := if e.inUse then 1 else 0 }
  let e ← read index
  if !e.inUse then pure dst
  else do
    let _ ← pcieDevRefreshBoardInfoLocked index
    let e ← read index
    let dst :=
      match e.pdev with
      | none => dst
      | some pdev =>
          { dst with vendor := pdev.vendor.setWidth 32, device := pdev.device.setWidth 32 }
    let e ← read index
    if e.boardInfoIsUpdated then do
      let e ← read index
      pure { dst with poc := e.boardInfo.poc, dramSizeMb := e.boardInfo.dramSizeMb,
                      dramType := strscpy32 e.boardInfo.dramType.toList,
                      fwVers := strscpy32 e.boardInfo.date.toList }
    else pure dst

def pcieEntryDetachPdev (index : Fin ambaPciDevMax) : Access Unit := do
  let e ← read index
  match e.pdev with
  | none => pure ()
  | some pdev => do
      pcieBootBarUnmap index
      kernel (.pciDevPut pdev)
      write index (.pdev none)

/-- The section of `pcie_boot_timeout_fn`. -/
def pcieBootTimeoutFn (index : Fin ambaPciDevMax) : Access Unit := do
  let e ← read index
  if e.inUse ∧ e.state = .booting then do
    write index (.state .bootFailed)
    AccessOp.perform (.workLeaves index)
  else AccessOp.perform (.workLeaves index)

def pcieBootTimeoutSchedule (index : Fin ambaPciDevMax) : Access Unit := do
  AccessOp.perform (.cancelWork index)
  AccessOp.perform (.scheduleWork index)

def pcieCreateProcNodes (index : Fin ambaPciDevMax) : Access Int := do
  let procRoot ← AccessOp.perform .procRoot
  if !procRoot then pure (-enodev)
  else do
    write index (.procName (some index.val))
    let made ← kernel (.procMkdir index.val)
    write index (.procDir made)
    if made = false then pure (-enomem)
    else do
      let created ← onHost (createProcEntries index.val pcieProcNodes)
      if created then pure 0
      else do
        let e ← read index
        onHost (removeProcSubtree e.procName)
        write index (.procDir false)
        write index (.procName none)
        pure (-enomem)

/-- The proc part of `pcie_release_dev`. -/
def releaseProcNodes (index : Fin ambaPciDevMax) : Access Unit := do
  let e ← read index
  if e.procDir then do
    onHost (removeProcSubtree e.procName)
    write index (.procDir false)
    write index (.procName none)
  else pure ()

def pcieReleaseDev (index : Fin ambaPciDevMax) : Access Unit := do
  let e ← read index
  if !e.inUse then pure ()
  else do
    pcieEntryDetachPdev index
    AccessOp.perform (.cancelWork index)
    releaseProcNodes index
    write index (.id 0)
    write index (.inUse false)
    write index (.state .disconnected)
    write index (.bootBar (-1))
    write index (.bootLen 0)
    write index (.bootMemBase none)
    write index (.boardInfoIsUpdated false)
    write index (.boardInfo {})

def pcieInitSlot (pdev : PciDev) (index : Fin ambaPciDevMax) : Access Int := do
  let ret ← pcieCreateProcNodes index
  if ret ≠ 0 then pure ret
  else do
    kernel (.pciDevGet pdev)
    write index (.pdev (some pdev))
    let id ← AccessOp.perform .nextDevId
    write index (.id id)
    AccessOp.perform (.setNextDevId (id + 1))
    write index (.phySlot (pciePhysicalSlots index))
    write index (.boardInfoIsUpdated false)
    write index (.boardInfo {})
    write index (.bootBar (-1))
    write index (.bootLen 0)
    write index (.bootMemBase none)
    write index (.state .disconnected)
    write index (.inUse true)
    pure 0

def pcieTryReconnectBootingLocked (pdev : PciDev) (index : Fin ambaPciDevMax) : Access Unit := do
  kernel (.pciDevGet pdev)
  write index (.pdev (some pdev))
  AccessOp.perform (.cancelWork index)
  write index (.state .connected)

def pcieHandleAddLocked (pdev : PciDev) : Access Unit :=
  match getPciSlotId pdev with
  | none => pure ()
  | some slotId => do
      let e ← read slotId
      if e.inUse then do
        let e ← read slotId
        if e.state ≠ .booting then pure ()
        else if isVirtioCard pdev then pcieTryReconnectBootingLocked pdev slotId
        else pure ()
      else if isVirtioCard pdev then do
        let ret ← pcieInitSlot pdev slotId
        if ret ≠ 0 then pure () else write slotId (.state .connected)
      else if isBootRomCard pdev then do
        let _ ← pcieInitSlot pdev slotId
        pure ()
      else pure ()

def pcieHandleDelLocked (pdev : PciDev) : Access Unit :=
  match getPciSlotId pdev with
  | none => pure ()
  | some slotId => do
      let e ← read slotId
      if !e.inUse then pure ()
      else do
        let e ← read slotId
        if e.state = .booting then pcieEntryDetachPdev slotId else pcieReleaseDev slotId

/-- The section of `pcie_pci_bus_notify`. -/
def pciePciBusNotify (action : BusAction) (pdev : PciDev) : Access Unit :=
  match action with
  | .addDevice => pcieHandleAddLocked pdev
  | .delDevice => pcieHandleDelLocked pdev
  | .other => pure ()

def enumerateSlot (slot : PhysicalSlot) : List PciDev → Access Unit
  | [] => pure ()
  | pdev :: rest =>
      if pdev.vendor = slot.targetVendor ∧ pdev.device = slot.targetDevice then
        if pdev.bus ≠ slot.bus then enumerateSlot slot rest
        else do
          pcieHandleAddLocked pdev
          enumerateSlot slot rest
      else enumerateSlot slot rest

def enumerateSlots (present : List PciDev) : List (Fin ambaPciDevMax) → Access Unit
  | [] => pure ()
  | index :: rest => do
      enumerateSlot (pciePhysicalSlots index) present
      enumerateSlots present rest

/-- The section of `pcie_enumerate_existed_devs`. -/
def pcieEnumerateExistedDevs (present : List PciDev) : Access Unit :=
  enumerateSlots present (List.finRange ambaPciDevMax)

def queryDevs : List (Fin ambaPciDevMax) → Access (List DevInfo)
  | [] => pure []
  | index :: rest => do
      let info ← pcieQueryDevInfoLocked index index.val
      let infos ← queryDevs rest
      pure (info :: infos)

/-- The section of `pcie_ioctl_query_platform_info`. -/
def pcieQueryPlatformInfoLocked : Access (List DevInfo) := queryDevs (List.finRange ambaPciDevMax)

/-- The section of `pcie_dev_info_read_entry`: the reply's record, and the entry the text shows. -/
def pcieDevInfoReadLocked (index : Fin ambaPciDevMax) : Access (DevInfo × Entry) := do
  let info ← pcieQueryDevInfoLocked index index.val
  let e ← read index
  pure (info, e)

/-- The section of `pcie_reboot_write_entry`. -/
def pcieRebootLocked (index : Fin ambaPciDevMax) : Access Int := do
  let e ← read index
  if e.pdev.isNone then pure (-enodev)
  else do
    let e ← read index
    if e.state ≠ .connected then pure (-ebusy)
    else do
      write index (.state .rebooting)
      pure 0

/-- The section of `pcie_ioctl_xfer_firmware`. -/
def pcieXferFirmwareLocked (t : Timing) (req : FwXfer) (index : Fin ambaPciDevMax) :
    Access Int := do
  let e ← read index
  if !e.inUse then pure (-enodev)
  else do
    let e ← read index
    if e.state ≠ .disconnected then pure (-ebusy)
    else do
      let ret ← pcieDevRefreshBoardInfoLocked index
      if ret ≠ 0 then pure ret
      else do
        let e ← read index
        match e.pdev, e.bootMemBase with
        | some pdev, some base => do
            kernel (.pciSetMaster pdev)
            let e ← read index
            let ret ← onHost (xferToEp t base e.bootLen req)
            if ret ≠ 0 then pure ret
            else do
              write index (.state .booting)
              pcieBootTimeoutSchedule index
              pure 0
        | _, _ => onHost oops

end Access

end AmbaPci

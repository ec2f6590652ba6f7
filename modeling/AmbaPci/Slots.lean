import AmbaPci.Transfer

set_option autoImplicit false

/- The slot table operations of `amba_pci_platform_main.c`. Each runs with `g_pcie_drv.lock` held:
it takes the table (or the one entry it works on) and returns it as it leaves it. -/
namespace AmbaPci

open ByteMemory (Byte)

/-- The mapping step of `pcie_dev_refresh_board_info_locked`. -/
def refreshBootMapping (pdev : PciDev) (e : Entry) : Host (Int × Entry) :=
  if e.bootMemBase.isNone then pcieBootBarEnsureMapped pdev e else pure (0, e)

def pcieDevRefreshBoardInfoLocked (e : Entry) : Host (Int × Entry) :=
  if e.state ≠ .disconnected then pure (0, e)
  else
    match e.pdev with
    | none => pure (-enodev, e)
    | some pdev => do
        let (ret, e) ← refreshBootMapping pdev e
        if ret ≠ 0 then pure (ret, e)
        else
          match e.boardInfoIsUpdated, e.bootMemBase with
          | false, some base => do
              let bd ← pcieRingReadBoardInfo base
              pure (ret, { e with boardInfo := bd, boardInfoIsUpdated := true })
          | _, _ => pure (ret, e)

/-- The characters of a C string that `strscpy` copies into a 32-byte field. -/
def strscpy32 (source : List Byte) : List Byte := (source.takeWhile (· ≠ 0)).take 31

def pcieQueryDevInfoLocked (e : Entry) (slot : Nat) : Host (DevInfo × Entry) :=
  let dst : DevInfo :=
    { id := e.id, slotId := BitVec.ofNat 32 slot, state := e.state,
      isValid := if e.inUse then 1 else 0 }
  if !e.inUse then pure (dst, e)
  else do
    let (_, e) ← pcieDevRefreshBoardInfoLocked e
    let dst :=
      match e.pdev with
      | none => dst
      | some pdev =>
          { dst with vendor := pdev.vendor.setWidth 32, device := pdev.device.setWidth 32 }
    let dst :=
      if e.boardInfoIsUpdated then
        { dst with poc := e.boardInfo.poc, dramSizeMb := e.boardInfo.dramSizeMb,
                   dramType := strscpy32 e.boardInfo.dramType.toList,
                   fwVers := strscpy32 e.boardInfo.date.toList }
      else dst
    pure (dst, e)

def pcieEntryDetachPdev (e : Entry) : Host Entry :=
  match e.pdev with
  | none => pure e
  | some pdev => do
      let e ← pcieBootBarUnmap pdev e
      perform (.pciDevPut pdev)
      pure { e with pdev := none }

/-- `cancel_delayed_work`: what is pending is dropped, what has started runs on. -/
def cancelDelayedWork (work : DelayedWork) : DelayedWork := { work with pending := .idle }

/-- `schedule_delayed_work`: nothing happens while the work is already pending. -/
def scheduleDelayedWork (work : DelayedWork) : DelayedWork :=
  match work.pending with
  | .idle => { work with pending := .armed }
  | _ => work

/-- The locked part of `pcie_boot_timeout_fn`. -/
def pcieBootTimeoutFn (e : Entry) : Entry :=
  if e.inUse ∧ e.state = .booting then { e with state := .bootFailed } else e

def pcieBootTimeoutSchedule (e : Entry) : Entry :=
  { e with bootTimeoutWork := scheduleDelayedWork (cancelDelayedWork e.bootTimeoutWork) }

/-- `remove_proc_subtree`. -/
def removeProcSubtree (name : Option Nat) : Host Unit := do
  perform (.procUnlink name)
  perform (.procDrain name)

def pcieProcNodes : List ProcNode := [.status, .devInfo, .net, .devLog, .reboot]

/-- The `proc_create_data` calls; the first failure ends them. -/
def createProcEntries (name : Nat) : List ProcNode → Host Bool
  | [] => pure true
  | node :: rest => do
      let created ← perform (.procCreateData name node)
      if created = false then pure false else createProcEntries name rest

def pcieCreateProcNodes (procRoot : Bool) (e : Entry) (index : Nat) : Host (Int × Entry) :=
  if !procRoot then pure (-enodev, e)
  else do
    let made ← perform (.procMkdir index)
    let e := { e with procName := some index, procDir := made }
    if made = false then pure (-enomem, e)
    else do
      let created ← createProcEntries index pcieProcNodes
      if created then pure (0, e)
      else do
        removeProcSubtree e.procName
        pure (-enomem, { e with procDir := false, procName := none })

/-- The proc part of `pcie_release_dev`. -/
def releaseProcNodes (e : Entry) : Host Entry :=
  if e.procDir then do
    removeProcSubtree e.procName
    pure { e with procDir := false, procName := none }
  else pure e

def pcieReleaseDev (e : Entry) : Host Entry :=
  if !e.inUse then pure e
  else do
    let e ← pcieEntryDetachPdev e
    let e ← releaseProcNodes { e with bootTimeoutWork := cancelDelayedWork e.bootTimeoutWork }
    pure { e with id := 0, inUse := false, state := .disconnected, bootBar := -1, bootLen := 0,
                  bootMemBase := none, boardInfoIsUpdated := false, boardInfo := {} }

/-- The source's undoing of the proc nodes is left out: nothing can fail after they exist. -/
def pcieInitSlot (pdev : PciDev) (index : Fin ambaPciDevMax) (s : Platform) :
    Host (Int × Platform) := do
  let (ret, e) ← pcieCreateProcNodes s.procRoot (s.devs index) index.val
  if ret ≠ 0 then pure (ret, s.setDev index e)
  else do
    perform (.pciDevGet pdev)
    let e := { e with pdev := some pdev, id := s.nextDevId, phySlot := pciePhysicalSlots index,
                      boardInfoIsUpdated := false, boardInfo := {}, bootBar := -1, bootLen := 0,
                      bootMemBase := none, state := .disconnected, inUse := true }
    pure (0, { s.setDev index e with nextDevId := s.nextDevId + 1 })

def getPciSlotId (pdev : PciDev) : Option (Fin ambaPciDevMax) :=
  (List.finRange ambaPciDevMax).find? fun i => pdev.bus = (pciePhysicalSlots i).bus

/-- The test of `pcie_handle_add_locked` for a card that runs its firmware. -/
def isVirtioCard (pdev : PciDev) : Bool :=
  pdev.vendor = ambaPciTargetVendorId ∧ pdev.device = ambaPciVirtioDeviceId ∧
    pciResourceLen pdev 0 ≠ 0

/-- The test of `pcie_handle_add_locked` for a card that waits in its boot ROM. -/
def isBootRomCard (pdev : PciDev) : Bool :=
  pdev.vendor = ambaPciTargetVendorId ∧ pdev.device = ambaPciTargetDeviceId ∧
    pdev.classCode &&& 0xff0000 = 0xff0000 ∧ pciResourceLen pdev 0 ≠ 0

def pcieTryReconnectBootingLocked (pdev : PciDev) (e : Entry) : Host Entry := do
  perform (.pciDevGet pdev)
  pure { e with pdev := some pdev, bootTimeoutWork := cancelDelayedWork e.bootTimeoutWork,
                state := .connected }

def pcieHandleAddLocked (pdev : PciDev) (s : Platform) : Host Platform :=
  match getPciSlotId pdev with
  | none => pure s
  | some slotId =>
      if (s.devs slotId).inUse then
        if (s.devs slotId).state ≠ .booting then pure s
        else if isVirtioCard pdev then do
          let e ← pcieTryReconnectBootingLocked pdev (s.devs slotId)
          pure (s.setDev slotId e)
        else pure s
      else if isVirtioCard pdev then do
        let (ret, s) ← pcieInitSlot pdev slotId s
        if ret ≠ 0 then pure s
        else pure (s.setDev slotId { s.devs slotId with state := .connected })
      else if isBootRomCard pdev then do
        let (_, s) ← pcieInitSlot pdev slotId s
        pure s
      else pure s

def pcieHandleDelLocked (pdev : PciDev) (s : Platform) : Host Platform :=
  match getPciSlotId pdev with
  | none => pure s
  | some slotId =>
      if !(s.devs slotId).inUse then pure s
      else if (s.devs slotId).state = .booting then do
        let e ← pcieEntryDetachPdev (s.devs slotId)
        pure (s.setDev slotId e)
      else do
        let e ← pcieReleaseDev (s.devs slotId)
        pure (s.setDev slotId e)

/-- The notifier actions that `pcie_pci_bus_notify` tells apart. -/
inductive BusAction
  | addDevice
  | delDevice
  | other
  deriving DecidableEq, Repr

/-- The locked part of `pcie_pci_bus_notify`, for a device of the PCI bus type. -/
def pciePciBusNotify (action : BusAction) (pdev : PciDev) (s : Platform) : Host Platform :=
  match action with
  | .addDevice => pcieHandleAddLocked pdev s
  | .delDevice => pcieHandleDelLocked pdev s
  | .other => pure s

/-- The inner loop of `pcie_enumerate_existed_devs`: `pci_get_device` walks the devices of the
machine in their order and stops at those of the slot's vendor and device id. -/
def enumerateSlot (slot : PhysicalSlot) : List PciDev → Platform → Host Platform
  | [], s => pure s
  | pdev :: rest, s =>
      if pdev.vendor = slot.targetVendor ∧ pdev.device = slot.targetDevice then
        if pdev.bus ≠ slot.bus then enumerateSlot slot rest s
        else do
          let s ← pcieHandleAddLocked pdev s
          enumerateSlot slot rest s
      else enumerateSlot slot rest s

def enumerateSlots (present : List PciDev) : List (Fin ambaPciDevMax) → Platform → Host Platform
  | [], s => pure s
  | index :: rest, s => do
      let s ← enumerateSlot (pciePhysicalSlots index) present s
      enumerateSlots present rest s

def pcieEnumerateExistedDevs (present : List PciDev) (s : Platform) : Host Platform :=
  enumerateSlots present (List.finRange ambaPciDevMax) s

/-- The table when `amba_pci_platform_init` starts to enumerate. -/
def platformInit (procRoot : Bool) : Platform where
  devs _ := {}
  nextDevId := 0
  procRoot := procRoot

/-- The locked part of `pcie_ioctl_query_platform_info`. -/
def queryDevs : List (Fin ambaPciDevMax) → Platform → Host (List DevInfo × Platform)
  | [], s => pure ([], s)
  | index :: rest, s => do
      let (info, e) ← pcieQueryDevInfoLocked (s.devs index) index.val
      let (infos, s) ← queryDevs rest (s.setDev index e)
      pure (info :: infos, s)

def pcieQueryPlatformInfoLocked (s : Platform) : Host (List DevInfo × Platform) :=
  queryDevs (List.finRange ambaPciDevMax) s

/-- The locked part of `pcie_dev_info_read_entry`, up to the text it formats. -/
def pcieDevInfoReadLocked (index : Fin ambaPciDevMax) (s : Platform) :
    Host (DevInfo × Platform) := do
  let (info, e) ← pcieQueryDevInfoLocked (s.devs index) index.val
  pure (info, s.setDev index e)

/-- The locked part of `pcie_reboot_write_entry`. -/
def pcieRebootLocked (e : Entry) : Int × Entry :=
  if e.pdev.isNone then (-enodev, e)
  else if e.state ≠ .connected then (-ebusy, e)
  else (0, { e with state := .rebooting })

end AmbaPci

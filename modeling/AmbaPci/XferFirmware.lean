import AmbaPci.Slots

set_option autoImplicit false

/- `pcie_ioctl_xfer_firmware`: the checks on the request, and the section under the lock. -/
namespace AmbaPci

/-- The checks on one image descriptor. -/
def fwImageAccepted (fwSize : BitVec 64) (img : FwImageDesc) : Bool :=
  !(fwSize < img.offset || img.length == 0 || fwSize - img.offset < img.length)

/-- `1U << img->type`, with the shift count taken modulo 32 as arm64 takes it. -/
def fwTypeBit (type : BitVec 32) : BitVec 32 := (1 : BitVec 32) <<< (type.toNat % 32)

/-- The loop over the descriptors: the bitmap of their types, or `none` when one is rejected. -/
def fwReqBitmap (fwSize : BitVec 64) : List FwImageDesc → BitVec 32 → Option (BitVec 32)
  | [], bitmap => some bitmap
  | img :: rest, bitmap =>
      if fwImageAccepted fwSize img then fwReqBitmap fwSize rest (bitmap ||| fwTypeBit img.type)
      else none

/-- The request passes every check made before the lock is taken. -/
def fwXferAccepted (req : FwXfer) : Bool :=
  req.slotId.toNat < ambaPciDevMax && req.fwUserPtr != 0 && req.fwSize != 0 &&
    fwReqBitmap req.fwSize req.images.toList 0 == some pcieFwReqBitmapMask

/-- The image loop under the lock; a descriptor that is not found is a NULL dereference. -/
def xferImages (t : Timing) (base : Mapping) (ringMapSize : BitVec 64) (req : FwXfer) :
    List (BitVec 32) → Host Int
  | [] => pure 0
  | type :: rest =>
      match pcieFwFindImage req type with
      | none => oops
      | some img => do
          let ret ← pcieRingXferUser t base ringMapSize req.fwUserPtr img
          if ret ≠ 0 then pure ret else xferImages t base ringMapSize req rest

/-- The ring traffic of one attempt, with the BAR mapped. -/
def xferToEp (t : Timing) (base : Mapping) (ringMapSize : BitVec 64) (req : FwXfer) : Host Int := do
  let ret ← pcieRingWaitEpReady t base
  if ret ≠ 0 then pure ret else xferImages t base ringMapSize req pcieFwXferOrder

/-- The section of `pcie_ioctl_xfer_firmware` under the lock, on the addressed entry. On success
the caller goes on to remove the device of the entry (`e_hot`). -/
def pcieXferFirmwareLocked (t : Timing) (req : FwXfer) (e : Entry) : Host (Int × Entry) :=
  if !e.inUse then pure (-enodev, e)
  else if e.state ≠ .disconnected then pure (-ebusy, e)
  else do
    let (ret, e) ← pcieDevRefreshBoardInfoLocked e
    if ret ≠ 0 then pure (ret, e)
    else
      match e.pdev, e.bootMemBase with
      | some pdev, some base => do
          perform (.pciSetMaster pdev)
          let ret ← xferToEp t base e.bootLen req
          if ret ≠ 0 then pure (ret, e)
          else pure (0, pcieBootTimeoutSchedule { e with state := .booting })
      | _, _ => oops

/-- `pcie_ioctl_xfer_firmware` up to the release of the lock, on a request copied from user space
and the entry it addresses. -/
def pcieIoctlXferFirmware (t : Timing) (req : FwXfer) (e : Entry) : Host (Int × Entry) :=
  if fwXferAccepted req then pcieXferFirmwareLocked t req e else pure (-einval, e)

end AmbaPci

import AmbaPci.SlotSystem

set_option autoImplicit false

/- The two ioctls that send host data to a running card, `pcie_ioctl_h2d_send_file` and
`pcie_ioctl_h2d_send_buffer`. -/
namespace AmbaPci

open ByteMemory (Byte)
open Interaction

/-- What `kernel_read` returns: a negative errno, or the bytes it has put into the buffer. -/
inductive ReadResult
  | failed (err : Int)
  | read (bytes : List Byte)
  deriving DecidableEq, Repr

/-- The kernel services of the two ioctls. The section under the driver lock only reads the slot's
entry, so it is one operation; `h2dXfer` is `pci_turbo_bus_xfer_h2d`. -/
inductive H2dOp
  | lockedEntry (index : Fin ambaPciDevMax)
  | symbolGet
  | symbolPut
  | filpOpen (path : List Byte)
  | filpClose
  | vmalloc (size : Nat)
  | vfree
  | copyFromUser (src : BitVec 64) (length : Nat)
  | kernelRead (pos : Nat) (count : Nat)
  | h2dXfer (bus : BitVec 32) (bytes : List Byte) (epAddr : BitVec 64)
  /-- A loop has used up the iterations the model gives it; it is still running. -/
  | spin
  deriving DecidableEq, Repr

/-- `filp_open` replies 0 or a negative errno. -/
abbrev H2dOp.Reply : H2dOp → Type
  | .lockedEntry _ => Entry
  | .symbolGet => Bool
  | .filpOpen _ => Int
  | .vmalloc _ => Bool
  | .copyFromUser _ length => Option (Vector Byte length)
  | .kernelRead _ _ => ReadResult
  | .h2dXfer _ _ _ => Int
  | .spin => Empty
  | _ => Unit

abbrev H2d : Type → Type := Prog H2dOp H2dOp.Reply

abbrev h2d (op : H2dOp) : H2d op.Reply := Prog.perform op

def h2dSpin {α : Type} : H2d α := .call .spin fun impossible => nomatch impossible

def ambaPciH2dChunkMax : BitVec 64 := 0x200000

/-- The slot of a request, when its number is below `AMBA_PCI_DEV_MAX`. -/
def h2dSlot (slotId : BitVec 32) : Option (Fin ambaPciDevMax) :=
  if small : slotId.toNat < ambaPciDevMax then some ⟨slotId.toNat, small⟩ else none

/-- The checks under the lock, and the bus number that is kept when they pass. -/
def h2dEntryBus (e : Entry) : Except Int (BitVec 32) :=
  match e.inUse, e.pdev with
  | true, some pdev =>
      if e.state ≠ .connected then .error (-ebusy) else .ok (pdev.bus.setWidth 32)
  | _, _ => .error (-enodev)

/-- The read loop of `pcie_ioctl_h2d_send_file`; the first argument bounds the reads. -/
def pcieH2dFileLoop (bus : BitVec 32) : Nat → Nat → BitVec 64 → H2d Int
  | 0, _, _ => h2dSpin
  | reads + 1, pos, epAddr => do
      let nread ← h2d (.kernelRead pos ambaPciH2dChunkMax.toNat)
      match nread with
      | .failed err => pure err
      | .read [] => pure 0
      | .read bytes => do
          let ret ← h2d (.h2dXfer bus bytes epAddr)
          if ret ≠ 0 then pure ret
          else
            pcieH2dFileLoop bus reads (pos + bytes.length) (epAddr + BitVec.ofNat 64 bytes.length)

/-- From `vmalloc` to `vfree`. -/
def pcieH2dSendOpened (bus : BitVec 32) (reads : Nat) (epAddr : BitVec 64) : H2d Int := do
  let kbuf ← h2d (.vmalloc ambaPciH2dChunkMax.toNat)
  if kbuf = false then pure (-enomem)
  else do
    let ret ← pcieH2dFileLoop bus reads 0 epAddr
    h2d .vfree
    pure ret

/-- From `symbol_get` to `symbol_put`. -/
def pcieH2dSendPath (bus : BitVec 32) (reads : Nat) (path : List Byte) (epAddr : BitVec 64) :
    H2d Int := do
  let found ← h2d .symbolGet
  if found = false then pure (-enodev)
  else do
    let opened ← h2d (.filpOpen path)
    if opened ≠ 0 then do
      h2d .symbolPut
      pure opened
    else do
      let ret ← pcieH2dSendOpened bus reads epAddr
      h2d .filpClose
      h2d .symbolPut
      pure ret

/-- `req.path` as a C string, its last byte overwritten. -/
def h2dPath (req : H2dSendFile) : List Byte :=
  (req.path.toList.take (ambaPciPathMax - 1)).takeWhile (· ≠ 0)

def pcieIoctlH2dSendFile (reads : Nat) (copied : Option H2dSendFile) : H2d Int :=
  match copied with
  | none => pure (-efault)
  | some req =>
      match h2dSlot req.slotId with
      | none => pure (-einval)
      | some index =>
          if h2dPath req = [] ∨ req.epAddr = 0 then pure (-einval)
          else do
            let e ← h2d (.lockedEntry index)
            match h2dEntryBus e with
            | .error err => pure err
            | .ok bus => pcieH2dSendPath bus reads (h2dPath req) req.epAddr

/-- `n`: the size of the chunk at `offset`. -/
def h2dChunkSize (size offset : BitVec 64) : BitVec 64 :=
  if size - offset < ambaPciH2dChunkMax then size - offset else ambaPciH2dChunkMax

/-- The chunk loop of `pcie_ioctl_h2d_send_buffer`; the first argument bounds the passes. -/
def pcieH2dBufferLoop (bus : BitVec 32) (src size epAddr : BitVec 64) :
    Nat → BitVec 64 → H2d Int
  | 0, _ => h2dSpin
  | passes + 1, offset =>
      if offset < size then do
        let n := h2dChunkSize size offset
        let copied ← h2d (.copyFromUser (src + offset) n.toNat)
        match copied with
        | none => pure (-efault)
        | some bytes => do
            let ret ← h2d (.h2dXfer bus bytes.toList (epAddr + offset))
            if ret ≠ 0 then pure ret
            else pcieH2dBufferLoop bus src size epAddr passes (offset + n)
      else pure 0

/-- One pass for each started chunk, and one to see that nothing is left. -/
def h2dPasses (size : BitVec 64) : Nat := size.toNat / ambaPciH2dChunkMax.toNat + 2

/-- From `symbol_get` to `symbol_put`. -/
def pcieH2dSendCopied (bus : BitVec 32) (src size epAddr : BitVec 64) : H2d Int := do
  let found ← h2d .symbolGet
  if found = false then pure (-enodev)
  else do
    let kbuf ← h2d (.vmalloc ambaPciH2dChunkMax.toNat)
    if kbuf = false then do
      h2d .symbolPut
      pure (-enomem)
    else do
      let ret ← pcieH2dBufferLoop bus src size epAddr (h2dPasses size) 0
      h2d .vfree
      h2d .symbolPut
      pure ret

def pcieIoctlH2dSendBuffer (copied : Option H2dSendBuffer) : H2d Int :=
  match copied with
  | none => pure (-efault)
  | some req =>
      match h2dSlot req.slotId with
      | none => pure (-einval)
      | some index =>
          if req.srcUserPtr = 0 ∨ req.size = 0 ∨ req.epAddr = 0 ∨
              BitVec.allOnes 64 - req.size < req.srcUserPtr ∨
              BitVec.allOnes 64 - req.size < req.epAddr then pure (-einval)
          else do
            let e ← h2d (.lockedEntry index)
            match h2dEntryBus e with
            | .error err => pure err
            | .ok bus => pcieH2dSendCopied bus req.srcUserPtr req.size req.epAddr

/-- One call of either ioctl, after `copy_from_user` has fetched its request. -/
inductive H2dCall
  | sendFile (reads : Nat) (req : H2dSendFile)
  | sendBuffer (req : H2dSendBuffer)

def H2dCall.slotId : H2dCall → BitVec 32
  | .sendFile _ req => req.slotId
  | .sendBuffer req => req.slotId

def H2dCall.program : H2dCall → H2d Int
  | .sendFile reads req => pcieIoctlH2dSendFile reads (some req)
  | .sendBuffer req => pcieIoctlH2dSendBuffer (some req)

end AmbaPci

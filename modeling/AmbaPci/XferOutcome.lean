import AmbaPci.TransferMarks
import AmbaPci.XferRequest

set_option autoImplicit false

/- `pcie_ioctl_xfer_firmware` as a whole: what its return value says about the slot table and about
the ring. -/
namespace AmbaPci

open ByteMemory (Byte)
open Interaction Interaction.Prog Interaction.Machine

/-! One image -/

/-- A chunk that was posted completely: `bytes` of the image fetched, copied with zeroes behind them
into the next block, and the descriptor that names this block. -/
def chunkMarks (userBase : BitVec 64) (img : FwImageDesc) (maxBlk : BitVec 32) (chunk : Nat)
    (bytes : List Byte) : List XferMark :=
  let pos := ringPos (pcieRingXferTotal img.length) chunk
  let size := ringChunkLen (pcieRingXferTotal img.length) chunk
  let blkid := BitVec.ofNat 32 chunk % maxBlk
  [.fetch (userBase + img.offset + pos) bytes,
    .copy (pcieRingDataBlk blkid) (bytes ++ List.replicate (size - bytes.length) 0),
    .chunk (pcieFwLoadAddr img.type + pos) (BitVec.ofNat 32 size) blkid]

/-- The chunks of an image before `count`, one after the other. -/
inductive ChunksMarked (userBase : BitVec 64) (img : FwImageDesc) (maxBlk : BitVec 32) :
    (count : Nat) → List XferMark → Prop
  | none : ChunksMarked userBase img maxBlk 0 []
  | more {chunk : Nat} {marks : List XferMark} {bytes : List Byte}
      (before : ChunksMarked userBase img maxBlk chunk marks)
      (length : bytes.length = min (ringChunkLen (pcieRingXferTotal img.length) chunk)
        (img.length.toNat - 512 * chunk)) :
      ChunksMarked userBase img maxBlk (chunk + 1)
        (marks ++ chunkMarks userBase img maxBlk chunk bytes)

/-- An image that was posted completely: its chunks, its closing command, and the ring idle. -/
def ImageMarked (userBase : BitVec 64) (img : FwImageDesc) (marks : List XferMark) : Prop :=
  ∃ maxBlk chunks,
    ChunksMarked userBase img maxBlk (ringChunks (pcieRingXferTotal img.length)) chunks ∧
      marks = chunks ++ [.command (pcieRingTail img.type img.length).1
        (pcieRingTail img.type img.length).2 (pcieFwLoadAddr img.type), .idle]

/-- `pcie_ioctl_xfer_firmware` up to the release of the lock, on the slot table. `argp` is what
`copy_from_user` fetches of the request. -/
def pcieIoctlXferFirmwareOn (t : Timing) (argp : Option FwXfer) (s : Platform) :
    Host (Int × Platform) :=
  match argp with
  | none => pure (-efault, s)
  | some req =>
      if inside : req.slotId.toNat < ambaPciDevMax then do
        let (ret, e) ← pcieIoctlXferFirmware t req (s.devs ⟨req.slotId.toNat, inside⟩)
        pure (ret, s.setDev ⟨req.slotId.toNat, inside⟩ e)
      else pure (-einval, s)

/-- The fields that a failed attempt leaves as they were. -/
structure SlotKept (e e' : Entry) : Prop where
  inUse : e'.inUse = e.inUse
  state : e'.state = e.state
  pdev : e'.pdev = e.pdev
  id : e'.id = e.id
  procDir : e'.procDir = e.procDir
  work : e'.bootTimeoutWork = e.bootTimeoutWork

/-- The three images were posted in order, and the ring was idle after each. -/
def TransferPosted (req : FwXfer) (marks : List XferMark) : Prop :=
  ∃ dtb rootfs kernel, pcieFwFindImage req ambaPciFwImageDtb = some dtb ∧
    pcieFwFindImage req ambaPciFwImageRootfs = some rootfs ∧
    pcieFwFindImage req ambaPciFwImageKernel = some kernel ∧
    ∃ first second third, marks = first ++ second ++ third ∧
      ImageMarked req.fwUserPtr dtb first ∧ ImageMarked req.fwUserPtr rootfs second ∧
      ImageMarked req.fwUserPtr kernel third

/-- What a successful attempt finds and leaves. -/
structure XferSucceeds (req : FwXfer) (e e' : Entry) (marks : List XferMark) : Prop where
  inUse : e.inUse = true
  idle : e.state = .disconnected
  booting : e'.state = .booting
  armed : e'.bootTimeoutWork.pending = .armed
  posted : TransferPosted req marks

theorem SlotKept.refl (e : Entry) : SlotKept e e := ⟨rfl, rfl, rfl, rfl, rfl, rfl⟩

/-- How an attempt on one entry ends. -/
def AttemptEnds (req : FwXfer) (e : Entry) (result : Int × Entry) (record : MarkRecord) : Prop :=
  (result.1 = 0 → XferSucceeds req e result.2 record.marks) ∧
    (result.1 ≠ 0 → SlotKept e result.2)

/-- How the whole call ends: without having touched the table, or with an attempt on one slot. -/
def CallEnds (argp : Option FwXfer) (s : Platform) (result : Int × Platform)
    (record : MarkRecord) : Prop :=
  (result.1 ≠ 0 ∧ result.2 = s) ∨ ∃ req index e', argp = some req ∧
    req.slotId.toNat = index.val ∧ result.2 = s.setDev index e' ∧
      AttemptEnds req (s.devs index) (result.1, e') record

theorem CallEnds.kept {argp : Option FwXfer} {s : Platform} {result : Int × Platform}
    {record : MarkRecord} (ends : CallEnds argp s result record) (failed : result.1 ≠ 0)
    (index : Fin ambaPciDevMax) : SlotKept (s.devs index) (result.2.devs index) := by
  rcases ends with ⟨-, same⟩ | ⟨req, slot, e', -, -, same, -, failure⟩
  · rw [same]
    exact .refl _
  · rw [same]
    by_cases here : index = slot
    · rw [here, Platform.setDev_same]
      exact failure failed
    · rw [Platform.setDev_other s slot index e' here]
      exact .refl _

end AmbaPci

import AmbaPci.Kernel

set_option autoImplicit false

/- `amba_pci_platform_transfer.c`: the boot BAR mapping and the firmware ring. Pointers into the
mapped BAR are offsets from the start of the mapping. -/
namespace AmbaPci

open ByteMemory (Byte wordByte)

def ringBlockSize : Nat := 512
def ringMagic : BitVec 32 := 0x61626d61
def ringCmdData : BitVec 32 := 1
def ringCmdSetDtbAddr : BitVec 32 := 3
def ringCmdSetLnxAddr : BitVec 32 := 4
def ringCmdSetInitrdAddr : BitVec 32 := 5
def ringStateOnline : BitVec 32 := 1

/-- Offsets of `struct pci_ring_header_layout`; the two asserted in the source are `rhBdOff = 24`
and `rhDesc0Off = 80`. -/
def rhMagicOff : Nat := 0
def rhStateOff : Nat := 4
def rhAvailOff : Nat := 8
def rhUsedOff : Nat := 12
def rhNumOff : Nat := 16
def rhMaxBlkOff : Nat := 20
def rhBdOff : Nat := 24
def rhDesc0Off : Nat := 80

def ambaPciFwEpRsvdEnd : BitVec 64 := 0x02000000
def ambaPciFwKernelLoadAddr : BitVec 64 := ambaPciFwEpRsvdEnd
def ambaPciFwDtbLoadAddr : BitVec 64 := ambaPciFwKernelLoadAddr + 64 * 0x100000
def ambaPciFwRootfsLoadAddr : BitVec 64 := ambaPciFwDtbLoadAddr + 2 * 0x100000

def pcieBootBarMapRetryMax : Nat := 3
def pcieBootBarMapRetryMs : Nat := 50

def pcieFwXferOrder : List (BitVec 32) :=
  [ambaPciFwImageDtb, ambaPciFwImageRootfs, ambaPciFwImageKernel]

def pcieFwReqBitmapMask : BitVec 32 :=
  (1 : BitVec 32) <<< ambaPciFwImageDtb ||| (1 : BitVec 32) <<< ambaPciFwImageRootfs |||
    (1 : BitVec 32) <<< ambaPciFwImageKernel

/-- What the model leaves open about time: the tick rate, and how often a polling loop can sample
before the model stops following it. -/
structure Timing where
  hz : Nat
  polls : Nat

/-- `msecs_to_jiffies`. -/
def Timing.msecsToJiffies (t : Timing) (ms : Nat) : BitVec 64 :=
  BitVec.ofNat 64 ((ms * t.hz + 999) / 1000)

/-- `time_before(a, b)`: `(long)(a - b) < 0`. -/
def timeBefore (a b : BitVec 64) : Bool := (a - b).msb

/-! The boot BAR -/

def pcieEnableMemIoResource (pdev : PciDev) : Host Int := do
  let err ← perform (.pciWriteConfigByte pdev 4 0x06)
  if err ≠ 0 then pure err
  else do
    perform (.msleep 100)
    let err ← perform (.pciWriteConfigByte pdev 4 0x07)
    if err ≠ 0 then pure err
    else do
      perform (.msleep 100)
      let err ← perform (.pciWriteConfigByte pdev 4 0x06)
      if err ≠ 0 then pure err
      else do
        perform (.msleep 100)
        pure 0

/-- The first memory BAR of nonzero length. -/
def pcieBootBarFind (pdev : PciDev) : Option (Fin pciStdNumBars) :=
  (List.finRange pciStdNumBars).find? fun i =>
    (pdev.bars.get i).mem && pciResourceLen pdev i != 0

/-- The mapping attempt on `bootBar` and `bootLen`, once these are known. -/
def pcieMapFoundBar (pdev : PciDev) (e : Entry) : Host (Int × Entry) := do
  let res ← perform (.barStatus pdev e.bootBar)
  if res.unset || !res.hasParent || res.start == 0 then pure (-enxio, e)
  else do
    let ret ← pcieEnableMemIoResource pdev
    if ret ≠ 0 then pure (ret, e)
    else do
      let base ← perform (.pciIomap pdev e.bootBar e.bootLen)
      match base with
      | none => pure (-eio, { e with bootMemBase := none })
      | some base => pure (0, { e with bootMemBase := some base })

def pcieMapBootBar (pdev : PciDev) (e : Entry) : Host (Int × Entry) :=
  if e.bootBar < 0 ∨ e.bootLen = 0 then
    match pcieBootBarFind pdev with
    | none => pure (-enxio, e)
    | some bar =>
        pcieMapFoundBar pdev
          { e with bootBar := (bar.val : Int), bootLen := pciResourceLen pdev bar }
  else pcieMapFoundBar pdev e

/-- The retry loop, with the attempts that are left and the result of the last one. -/
def pcieBootBarMapRetry (pdev : PciDev) : Nat → Int → Entry → Host (Int × Entry)
  | 0, ret, e => pure (ret, e)
  | attempts + 1, _, e => do
      let (ret, e) ← pcieMapBootBar pdev e
      if ret = 0 then pure (ret, e)
      else if ret ≠ -enxio then pure (ret, e)
      else do
        perform (.msleep pcieBootBarMapRetryMs)
        pcieBootBarMapRetry pdev attempts ret e

def pcieBootBarEnsureMapped (pdev : PciDev) (e : Entry) : Host (Int × Entry) :=
  if e.bootMemBase.isSome then pure (0, e)
  else do
    let (ret, e) ← pcieBootBarMapRetry pdev pcieBootBarMapRetryMax 0 e
    if ret = -enxio then pure (-etimedout, e) else pure (ret, e)

def pcieBootBarUnmap (pdev : PciDev) (e : Entry) : Host Entry :=
  match e.bootMemBase with
  | none => pure e
  | some base => do
      perform (.pciIounmap pdev base)
      pure { e with bootMemBase := none }

/-! Ring accesses -/

def pcieRingR32 (fn : RingFn) (base : Mapping) (off : Nat) : Host (BitVec 32) :=
  perform (.readl fn base off)

def pcieRingW32 (fn : RingFn) (base : Mapping) (off : Nat) (v : BitVec 32) : Host Unit :=
  perform (.writel fn base off v)

def pcieRingDesc (curAvail num : BitVec 32) : Nat := rhDesc0Off + (curAvail % num).toNat * 20

def pcieRingDataBlk (blkid : BitVec 32) : Nat := (blkid + 1).toNat * ringBlockSize

/-- The loop of `pcie_ring_wait_u32`, with the samples the model still follows. -/
def pcieRingWaitLoop (base : Mapping) (off : Nat) (want : BitVec 32) (equal : Bool)
    (deadline : BitVec 64) : Nat → Host Int
  | 0 => spin
  | polls + 1 => do
      let now ← perform .jiffies
      if timeBefore now deadline then do
        let val ← pcieRingR32 .waitU32 base off
        if (if equal then val = want else val ≠ want) then pure 0
        else do
          perform .usleepRange
          pcieRingWaitLoop base off want equal deadline polls
      else pure (-etimedout)

def pcieRingWaitU32 (t : Timing) (base : Mapping) (off : Nat) (want : BitVec 32) (equal : Bool)
    (timeoutMs : Nat) : Host Int := do
  let now ← perform .jiffies
  pcieRingWaitLoop base off want equal (now + t.msecsToJiffies timeoutMs) t.polls

/-- The loop of `pcie_ring_xfer_poll`, with the samples the model still follows. -/
def pcieRingPollLoop (base : Mapping) (deadline : BitVec 64) : Nat → Host Int
  | 0 => spin
  | polls + 1 => do
      let now ← perform .jiffies
      if timeBefore now deadline then do
        let used ← pcieRingR32 .xferPoll base rhUsedOff
        let num ← pcieRingR32 .xferPoll base rhNumOff
        let avail ← pcieRingR32 .xferPoll base rhAvailOff
        if used + num = avail then pure 0
        else do
          perform .usleepRange
          pcieRingPollLoop base deadline polls
      else pure (-etimedout)

def pcieRingXferPoll (t : Timing) (base : Mapping) (timeoutMs : Nat) : Host Int := do
  let now ← perform .jiffies
  pcieRingPollLoop base (now + t.msecsToJiffies timeoutMs) t.polls

/-- The words of the board info area, from word `index` on. -/
def pcieRingReadWords (base : Mapping) (index : Nat) : Nat → Host (List (BitVec 32))
  | 0 => pure []
  | count + 1 => do
      let word ← pcieRingR32 .readBoardInfo base (rhBdOff + index * 4)
      let rest ← pcieRingReadWords base (index + 1) count
      pure (word :: rest)

/-- The 14 words seen as `struct pci_dev_board_info`, both strings cut at their last byte. -/
def BoardInfo.ofWords (words : List (BitVec 32)) : BoardInfo where
  id := words.getD 0 0
  vers := words.getD 1 0
  poc := words.getD 2 0
  dramSizeMb := words.getD 3 0
  dramType := Vector.ofFn fun i : Fin 8 =>
    if i.val = 7 then 0 else wordByte (words.getD (4 + i.val / 4) 0) (i.val % 4)
  date := Vector.ofFn fun i : Fin 32 =>
    if i.val = 31 then 0 else wordByte (words.getD (6 + i.val / 4) 0) (i.val % 4)

def pcieRingReadBoardInfo (base : Mapping) : Host BoardInfo := do
  let words ← pcieRingReadWords base 0 14
  pure (BoardInfo.ofWords words)

def pcieRingWaitEpReady (t : Timing) (base : Mapping) : Host Int := do
  let ret ← pcieRingWaitU32 t base rhMagicOff ringMagic true 5000
  if ret ≠ 0 then pure ret
  else pcieRingWaitU32 t base rhStateOff ringStateOnline true 5000

/-! The transfer of one image -/

def pcieFwLoadAddr (type : BitVec 32) : BitVec 64 :=
  if type = ambaPciFwImageDtb then ambaPciFwDtbLoadAddr
  else if type = ambaPciFwImageRootfs then ambaPciFwRootfsLoadAddr
  else if type = ambaPciFwImageKernel then ambaPciFwKernelLoadAddr
  else 0

/-- `struct pcie_ring_ctx`. -/
structure PcieRingCtx where
  base : Mapping := 0
  num : BitVec 32 := 0
  maxBlk : BitVec 32 := 0
  curAvail : BitVec 32 := 0
  curBlk : BitVec 32 := 0
  deriving DecidableEq, Repr

/-- The size test of `pcie_ring_ctx_init`: the sum is taken in 32 bits, the product in 64. -/
def pcieRingMapTooSmall (maxBlk : BitVec 32) (ringMapSize : BitVec 64) : Bool :=
  ringMapSize < (maxBlk + 1).setWidth 64 * BitVec.ofNat 64 ringBlockSize

def pcieRingCtxInit (base : Mapping) (ringMapSize : BitVec 64) : Host (Int × PcieRingCtx) := do
  let num ← pcieRingR32 .ctxInit base rhNumOff
  let maxBlk ← pcieRingR32 .ctxInit base rhMaxBlkOff
  if num = 0 ∨ maxBlk = 0 then pure (-einval, {})
  else if pcieRingMapTooSmall maxBlk ringMapSize then pure (-einval, {})
  else do
    let avail ← pcieRingR32 .ctxInit base rhAvailOff
    pure (0, { base, num, maxBlk, curAvail := avail - num, curBlk := 0 })

def pcieRingPostData (t : Timing) (ring : PcieRingCtx) (chunk : List Byte) (csz : BitVec 32)
    (epAddr : BitVec 64) : Host (Int × PcieRingCtx) := do
  let ret ← pcieRingWaitU32 t ring.base rhAvailOff ring.curAvail false 5000
  if ret ≠ 0 then pure (ret, ring)
  else do
    let desc := pcieRingDesc ring.curAvail ring.num
    pcieRingW32 .postData ring.base (desc + 0) ringCmdData
    pcieRingW32 .postData ring.base (desc + 4) csz
    pcieRingW32 .postData ring.base (desc + 8) (epAddr.setWidth 32)
    pcieRingW32 .postData ring.base (desc + 12) ((epAddr >>> 32).setWidth 32)
    pcieRingW32 .postData ring.base (desc + 16) (ring.curBlk % ring.maxBlk)
    let dst := pcieRingDataBlk (ring.curBlk % ring.maxBlk)
    perform (.memcpyToio .postData ring.base dst chunk)
    let used ← pcieRingR32 .postData ring.base rhUsedOff
    pcieRingW32 .postData ring.base rhUsedOff (used + 1)
    pure (0, { ring with curBlk := ring.curBlk + 1, curAvail := ring.curAvail + 1 })

def pcieRingPostCmd (t : Timing) (ring : PcieRingCtx) (cmd size : BitVec 32)
    (addr : BitVec 64) : Host (Int × PcieRingCtx) := do
  let ret ← pcieRingWaitU32 t ring.base rhAvailOff ring.curAvail false 5000
  if ret ≠ 0 then pure (ret, ring)
  else do
    let desc := pcieRingDesc ring.curAvail ring.num
    pcieRingW32 .postCmd ring.base (desc + 0) cmd
    pcieRingW32 .postCmd ring.base (desc + 4) size
    pcieRingW32 .postCmd ring.base (desc + 8) (addr.setWidth 32)
    pcieRingW32 .postCmd ring.base (desc + 12) ((addr >>> 32).setWidth 32)
    pcieRingW32 .postCmd ring.base (desc + 16) 0
    let used ← pcieRingR32 .postCmd ring.base rhUsedOff
    pcieRingW32 .postCmd ring.base rhUsedOff (used + 1)
    pure (0, { ring with curAvail := ring.curAvail + 1 })

/-- `total`: the image length rounded up to 16, in 64 bits. -/
def pcieRingXferTotal (dataLen : BitVec 64) : BitVec 64 := (dataLen + 15) &&& ~~~15

/-- `csz`: the size of the chunk at `epPos`. -/
def pcieRingChunkSize (total epPos : BitVec 64) : BitVec 32 :=
  (if 512 < total - epPos then (512 : BitVec 64) else total - epPos).setWidth 32

/-- Fill the bounce buffer: bytes of the image, then zeroes; `none` when `copy_from_user` faults. -/
def pcieRingFillChunk (src dataLen epPos : BitVec 64) (csz : BitVec 32) :
    Host (Option (List Byte)) :=
  if dataLen ≤ epPos then pure (some (List.replicate csz.toNat 0))
  else do
    let nfile := min csz.toNat (dataLen - epPos).toNat
    let copied ← perform (.copyFromUser src nfile)
    match copied with
    | none => pure none
    | some bytes => pure (some (bytes.toList ++ List.replicate (csz.toNat - nfile) 0))

/-- The chunk loop of `pcie_ring_xfer_user`; the first argument bounds the passes. -/
def pcieRingXferLoop (t : Timing) (src dataLen loadAddr total : BitVec 64) :
    Nat → PcieRingCtx → BitVec 64 → Host (Int × PcieRingCtx)
  | 0, _, _ => spin
  | passes + 1, ring, epPos =>
      if epPos < total then do
        let csz := pcieRingChunkSize total epPos
        let filled ← pcieRingFillChunk (src + epPos) dataLen epPos csz
        match filled with
        | none => pure (-efault, ring)
        | some chunk => do
            let (ret, ring) ← pcieRingPostData t ring chunk csz (loadAddr + epPos)
            if ret ≠ 0 then pure (ret, ring)
            else
              pcieRingXferLoop t src dataLen loadAddr total passes ring (epPos + csz.setWidth 64)
      else pure (0, ring)

/-- The command that closes an image, and the size it announces. -/
def pcieRingTail (type : BitVec 32) (dataLen : BitVec 64) : BitVec 32 × BitVec 32 :=
  if type = ambaPciFwImageKernel then (ringCmdSetLnxAddr, 0)
  else if type = ambaPciFwImageDtb then (ringCmdSetDtbAddr, 0)
  else if type = ambaPciFwImageRootfs then (ringCmdSetInitrdAddr, dataLen.setWidth 32)
  else (0, 0)

/-- One pass for each started block, and one to see that nothing is left. -/
def pcieRingPasses (total : BitVec 64) : Nat := total.toNat / ringBlockSize + 2

def pcieRingXferUser (t : Timing) (base : Mapping) (ringMapSize userBase : BitVec 64)
    (img : FwImageDesc) : Host Int := do
  let chunk ← perform (.kmalloc ringBlockSize)
  if chunk = false then pure (-enomem)
  else do
    let total := pcieRingXferTotal img.length
    let (ret, ring) ← pcieRingCtxInit base ringMapSize
    if ret ≠ 0 then pure ret
    else do
      let (ret, ring) ← pcieRingXferLoop t (userBase + img.offset) img.length
        (pcieFwLoadAddr img.type) total (pcieRingPasses total) ring 0
      if ret ≠ 0 then pure ret
      else do
        let tail := pcieRingTail img.type img.length
        let (ret, _) ← pcieRingPostCmd t ring tail.1 tail.2 (pcieFwLoadAddr img.type)
        if ret ≠ 0 then pure ret
        else pcieRingXferPoll t base 5000

def pcieFwFindImage (req : FwXfer) (type : BitVec 32) : Option FwImageDesc :=
  req.images.toList.find? fun img => img.type = type

end AmbaPci

import AmbaPci.RingRefinement
import AmbaPci.TrafficRuns

set_option autoImplicit false

/- What a chunk does to its own descriptor where the slots reach into the first block: slot 21
crosses the end of the first 512 bytes, and the copy of the first chunk replaces the block it
names. -/
namespace AmbaPci

open ByteMemory
open Interaction Interaction.Machine

/-! The bytes of one post -/

/-- Without the endpoint, a copy is one store. -/
theorem copyToio_eq (bar : Memory) (off : Nat) (bytes : List Byte) :
    copyToio bar off bytes = storeBytes bar off bytes := by
  induction bytes generalizing bar off with
  | nil => exact (storeBytes_nil bar off).symm
  | cons byte rest ih =>
      rw [copyToio, ih]
      exact storeBytes_append bar off [byte] rest

/-- The word that four of the copied bytes make up. -/
theorem load32_copyToio (bar : Memory) (off : Nat) {bytes : List Byte} {index : Nat}
    {word : BitVec 32}
    (here : ∀ byte < 4, bytes[index + byte]? = some (wordByte word byte)) :
    load32 (copyToio bar off bytes) (off + index) = word := by
  rw [← load32_store32_same (fun _ => 0) (off + index) word]
  apply load32_congr
  intro byte inside
  obtain ⟨short, value⟩ := List.getElem?_eq_some_iff.mp (here byte inside)
  rw [copyToio_eq, store32_inside _ _ _ byte inside, Nat.add_assoc, storeBytes_inside _ _ _ short]
  exact value

/-- The five words of a descriptor in memory. -/
def writeDesc (bar : Memory) (desc : Nat) (cmd size addrLo addrHi blkid : BitVec 32) : Memory :=
  store32 (store32 (store32 (store32 (store32 bar (desc + 0) cmd) (desc + 4) size) (desc + 8)
    addrLo) (desc + 12) addrHi) (desc + 16) blkid

section WriteDesc

variable (bar : Memory) (desc : Nat) (cmd size addrLo addrHi blkid : BitVec 32)

theorem load32_writeDesc_apart {other : Nat} (apart : Apart desc 20 other 4) :
    load32 (writeDesc bar desc cmd size addrLo addrHi blkid) other = load32 bar other := by
  have word : ∀ k ≤ 16, Apart (desc + k) 4 other 4 := by
    intro k low
    unfold Apart at apart ⊢
    omega
  unfold writeDesc
  rw [load32_store32_apart _ _ _ _ (word 16 (by decide)),
    load32_store32_apart _ _ _ _ (word 12 (by decide)),
    load32_store32_apart _ _ _ _ (word 8 (by decide)),
    load32_store32_apart _ _ _ _ (word 4 (by decide)),
    load32_store32_apart _ _ _ _ (word 0 (by decide))]

theorem load32_writeDesc_cmd : load32 (writeDesc bar desc cmd size addrLo addrHi blkid) desc =
    cmd := by
  have word : ∀ k, 4 ≤ k → Apart (desc + k) 4 desc 4 := by
    intro k high
    unfold Apart
    omega
  unfold writeDesc
  rw [load32_store32_apart _ _ _ _ (word 16 (by decide)),
    load32_store32_apart _ _ _ _ (word 12 (by decide)),
    load32_store32_apart _ _ _ _ (word 8 (by decide)),
    load32_store32_apart _ _ _ _ (word 4 (by decide))]
  exact load32_store32_same bar desc cmd

end WriteDesc

/-! A post while the endpoint stands still -/

section Posts

variable {user : BitVec 64 → Byte} {num maxBlk : BitVec 32}

/-- The ring after the five words of a descriptor. -/
def RingWorld.drafted (w : RingWorld) (ring : PcieRingCtx) (csz : BitVec 32)
    (epAddr : BitVec 64) : RingWorld :=
  { w with
    bar := writeDesc w.bar (pcieRingDesc ring.curAvail ring.num) ringCmdData csz
      (epAddr.setWidth 32) ((epAddr >>> 32).setWidth 32) (ring.curBlk % ring.maxBlk) }

theorem ringWait_still (base : Mapping) {want : BitVec 32} {w : RingWorld}
    (apart : w.avail ≠ want) :
    (ringMachine user).CanReturn (fun ret w' => ret = 0 ∧ w' = w)
      (pcieRingWaitU32 onePoll base rhAvailOff want false 5000) w :=
  pcieRingWaitU32_still base rhAvailOff (by rwa [if_neg (by decide)]) rfl ⟨rfl, rfl⟩

theorem pcieRingPostData_still {ring : PcieRingCtx} {chunk : List Byte} {csz : BitVec 32}
    {epAddr : BitVec 64} {w : RingWorld} (apart : w.avail ≠ ring.curAvail) :
    (ringMachine user).CanReturn
      (fun posted w' => posted = (0, ring.posted) ∧
        ∃ bar, bar = copyToio (w.drafted ring csz epAddr).bar
            (pcieRingDataBlk (ring.curBlk % ring.maxBlk)) chunk ∧
          w' = { w with bar := store32 bar rhUsedOff (load32 bar rhUsedOff + 1) })
      (pcieRingPostData onePoll ring chunk csz epAddr) w := by
  apply canReturn_seq (ringWait_still ring.base apart)
  rintro ret w₁ ⟨zero, same⟩
  rw [if_neg (by simp [zero]), same]
  refine canReturn_perform () rfl (canReturn_perform () rfl (canReturn_perform () rfl
    (canReturn_perform () rfl (canReturn_perform () rfl ?_))))
  refine canReturn_perform () (copyToio_copies _ chunk (w.drafted ring csz epAddr)) ?_
  refine canReturn_perform _ ⟨rfl, rfl⟩ (canReturn_perform () rfl ?_)
  exact canReturn_done ⟨rfl, _, rfl, rfl⟩

theorem pcieRingPostData_copies {ring : PcieRingCtx} (chunk : List Byte) {csz : BitVec 32}
    {epAddr : BitVec 64} {w : RingWorld} (apart : w.avail ≠ ring.curAvail) :
    (ringMachine user).CanCall
      (fun w' op => w' = w.drafted ring csz epAddr ∧
        op = .memcpyToio .postData ring.base (pcieRingDataBlk (ring.curBlk % ring.maxBlk)) chunk)
      (pcieRingPostData onePoll ring chunk csz epAddr) w := by
  apply canCall_seq (ringWait_still ring.base apart)
  rintro ret w₁ ⟨zero, same⟩
  rw [if_neg (by simp [zero]), same]
  refine canCall_perform () rfl (canCall_perform () rfl (canCall_perform () rfl
    (canCall_perform () rfl (canCall_perform () rfl ?_))))
  exact canCall_here ⟨rfl, rfl⟩

theorem pcieRingFillChunk_ring (src dataLen epPos : BitVec 64) (csz : BitVec 32) (w : RingWorld) :
    (ringMachine user).CanReturn (fun filled w' => w' = w ∧ ∃ chunk, filled = some chunk ∧
        ChunkBytes (fun source bytes => bytes = userBytes user source bytes.length) src dataLen
          epPos csz chunk)
      (pcieRingFillChunk src dataLen epPos csz) w := by
  refine pcieRingFillChunk_still user src dataLen epPos csz (fun length bytes image => ⟨rfl, ?_⟩)
  rintro _ ⟨⟩
  exact image

end Posts

/-! Two chunks, from position 21 on -/

section Overwritten

variable {num maxBlk : BitVec 32} {img : FwImageDesc}

/-- User memory in which bytes 4 to 7 of an image are a word. -/
def craftedUser (offset : BitVec 64) (word : BitVec 32) : BitVec 64 → Byte :=
  fun addr => wordByte word (addr - (offset + 4)).toNat

/-- The descriptor at position 21 is published, and names the block of the next chunk. -/
structure Overwritten (num maxBlk : BitVec 32) (w : RingWorld) : Prop where
  used : w.used = 22
  avail : w.avail = 21 + num
  cmd : load32 w.bar 500 = ringCmdData
  blkid : load32 w.bar 516 = 1 % maxBlk

theorem ringDesc_first (long : 22 ≤ num.toNat) : pcieRingDesc (ringIndex 21 0) num = 500 := by
  have position : (21 : BitVec 32).toNat = 21 := rfl
  rw [ringIndex_zero, pcieRingDesc, BitVec.toNat_umod, position, Nat.mod_eq_of_lt (by omega)]
  rfl

/-- The next slot is the first one or lies behind slot 21. -/
theorem ringDesc_second (long : 22 ≤ num.toNat) :
    rhDesc0Off ≤ pcieRingDesc (ringIndex 21 1) num ∧
      Apart (pcieRingDesc (ringIndex 21 1) num) 20 500 20 := by
  have position : (ringIndex 21 1).toNat = 22 := rfl
  rw [pcieRingDesc, BitVec.toNat_umod, position]
  refine ⟨Nat.le_add_right _ _, ?_⟩
  by_cases wraps : num.toNat = 22
  · rw [wraps]
    decide
  · rw [Nat.mod_eq_of_lt (by omega)]
    decide

/-- The bytes of the first chunk that fall on the block of its descriptor. -/
theorem craftedUser_chunk (word : BitVec 32) {chunk : List Byte} {csz : BitVec 32}
    (long : 8 ≤ img.length.toNat) (large : 8 ≤ csz.toNat)
    (filled : ChunkBytes
      (fun source bytes => bytes = userBytes (craftedUser img.offset word) source bytes.length)
      (img.offset + 0) img.length 0 csz chunk) :
    ∀ byte < 4, chunk[4 + byte]? = some (wordByte word byte) := by
  intro byte inside
  have zero : (0 : BitVec 64).toNat = 0 := rfl
  have within : 4 + byte < img.length.toNat := by omega
  have shift : img.offset + BitVec.ofNat 64 (4 + byte) - (img.offset + 4) =
      BitVec.ofNat 64 byte := by
    rw [BitVec.ofNat_add, ← BitVec.add_assoc]
    exact BitVec.sub_eq_iff_eq_add.mpr (BitVec.add_comm _ _)
  rw [filled.image, zero, List.getElem?_eq_getElem (by rw [loadBytes_length]; omega)]
  simp only [loadBytes, List.getElem_map, List.getElem_range, imageCells, Nat.zero_add, within,
    ↓reduceIte, craftedUser, shift, BitVec.toNat_ofNat]
  rw [Nat.mod_eq_of_lt (by omega)]

/-- The first chunk is posted, and its bytes replace the block that its descriptor names. -/
theorem ringChunkPass_overwrites (long : 22 ≤ num.toNat)
    (more : 1 < ringChunks (pcieRingXferTotal img.length)) {ring : PcieRingCtx}
    (ctx : TrafficCtx num maxBlk 21 0 ring) :
    (ringMachine (craftedUser img.offset (1 % maxBlk))).CanReturn
      (fun posted w => posted = (0, ring.posted) ∧ Overwritten num maxBlk w)
      (ringChunkPass onePoll (0 + img.offset) img.length (pcieFwLoadAddr img.type)
        (pcieRingXferTotal img.length) (ringPos (pcieRingXferTotal img.length) 0) ring)
      (restingRing num maxBlk 21) := by
  obtain ⟨idle, used⟩ := restingRing_idle num maxBlk 21
  have avail : (restingRing num maxBlk 21).avail = 21 + num := by
    rw [← idle.idle, used, idle.num]
  have size := pcieRingChunkSize_toNat (Nat.lt_trans Nat.zero_lt_one more)
  have lengths : 512 < (pcieRingXferTotal img.length).toNat ∧ 8 ≤ img.length.toNat := by
    have total := pcieRingXferTotal_toNat img.length
    unfold ringChunks at more
    split at total
    · omega
    · omega
  have whole : ringChunkLen (pcieRingXferTotal img.length) 0 = 512 := by
    unfold ringChunkLen
    omega
  have start : 0 + img.offset = img.offset := BitVec.zero_add _
  rw [ringPos_zero] at size
  rw [start, ringPos_zero]
  unfold ringChunkPass
  apply canReturn_seq (pcieRingFillChunk_ring _ img.length _ _ _)
  rintro _ w ⟨same, chunk, rfl, filled⟩
  rw [same]
  have bytes := craftedUser_chunk (1 % maxBlk) lengths.2 (by omega) filled
  have apart : (restingRing num maxBlk 21).avail ≠ ring.curAvail := by
    rw [avail, ctx.curAvail, ringIndex_zero]
    intro wraps
    have zero := BitVec.sub_eq_iff_eq_add.mpr (wraps.symm.trans (BitVec.add_comm _ _))
    rw [BitVec.sub_self] at zero
    rw [← zero] at long
    exact absurd long (by decide)
  refine canReturn_mono (pcieRingPostData_still apart) ?_
  rintro posted w' ⟨rfl, bar, copied, rfl⟩
  refine ⟨rfl, ?_⟩
  have block : pcieRingDataBlk (ring.curBlk % ring.maxBlk) = 512 := by
    have first : (BitVec.ofNat 32 0 % maxBlk).toNat = 0 := by
      rw [BitVec.toNat_umod]
      exact Nat.zero_mod _
    rw [ctx.curBlk, ctx.maxBlk, pcieRingDataBlk,
      show BitVec.ofNat 32 0 % maxBlk = 0 from BitVec.eq_of_toNat_eq first]
    rfl
  have desc : pcieRingDesc ring.curAvail ring.num = 500 := by
    rw [ctx.curAvail, ctx.num, ringDesc_first long]
  rw [block] at copied
  -- the copy begins behind the registers and the command of the descriptor
  have low : ∀ off, off + 4 ≤ 512 → load32 bar off = load32 (((restingRing num maxBlk 21).drafted
      ring (pcieRingChunkSize (pcieRingXferTotal img.length) 0)
        (pcieFwLoadAddr img.type + 0)).bar) off := by
    intro off below
    rw [copied]
    exact load32_congr fun index inside => copyToio_outside _ _ _ _ (by omega)
  have register : ∀ off, off + 4 ≤ rhDesc0Off →
      load32 bar off = load32 (restingRing num maxBlk 21).bar off := by
    intro off header
    rw [low off (by unfold rhDesc0Off at header; omega)]
    apply load32_writeDesc_apart
    rw [desc]
    unfold rhDesc0Off at header
    unfold Apart
    omega
  have kept : ∀ off, rhUsedOff + 4 ≤ off ∨ off + 4 ≤ rhUsedOff →
      load32 (store32 bar rhUsedOff (load32 bar rhUsedOff + 1)) off = load32 bar off := by
    intro off outside
    apply load32_store32_apart
    unfold Apart
    omega
  constructor
  · show load32 (store32 bar rhUsedOff (load32 bar rhUsedOff + 1)) rhUsedOff = 22
    rw [load32_store32_same, register rhUsedOff (by decide),
      show load32 (restingRing num maxBlk 21).bar rhUsedOff = 21 from used]
    rfl
  · show load32 (store32 bar rhUsedOff (load32 bar rhUsedOff + 1)) rhAvailOff = _
    rw [kept rhAvailOff (by decide), register rhAvailOff (by decide)]
    exact avail
  · rw [kept 500 (by decide), low 500 (by decide)]
    have first := load32_writeDesc_cmd (restingRing num maxBlk 21).bar
      (pcieRingDesc ring.curAvail ring.num) ringCmdData
      (pcieRingChunkSize (pcieRingXferTotal img.length) 0)
      ((pcieFwLoadAddr img.type + 0).setWidth 32)
      (((pcieFwLoadAddr img.type + 0) >>> 32).setWidth 32) (ring.curBlk % ring.maxBlk)
    rw [desc] at first
    unfold RingWorld.drafted
    rw [desc]
    exact first
  · rw [kept 516 (by decide), copied]
    exact load32_copyToio _ 512 bytes

/-- The words of the next descriptor go elsewhere. -/
theorem Overwritten.drafted {w : RingWorld} (here : Overwritten num maxBlk w)
    (long : 22 ≤ num.toNat) {ring : PcieRingCtx} (ctx : TrafficCtx num maxBlk 21 1 ring)
    (csz : BitVec 32) (epAddr : BitVec 64) :
    Overwritten num maxBlk (w.drafted ring csz epAddr) := by
  obtain ⟨high, apart⟩ := ringDesc_second long
  have outside : ∀ off, off + 4 ≤ rhDesc0Off ∨ (500 ≤ off ∧ off + 4 ≤ 520) →
      load32 (w.drafted ring csz epAddr).bar off = load32 w.bar off := by
    intro off place
    apply load32_writeDesc_apart
    rw [ctx.curAvail, ctx.num]
    unfold Apart at apart ⊢
    omega
  exact
    { used := (outside rhUsedOff (by decide)).trans here.used
      avail := (outside rhAvailOff (by decide)).trans here.avail
      cmd := (outside 500 (by decide)).trans here.cmd
      blkid := (outside 516 (by decide)).trans here.blkid }

/-- The transfer comes to copy its second chunk into the block that the descriptor of the first one
has come to name. -/
theorem transfer_overwrites {ringMapSize : BitVec 64}
    (accepted : RingAccepts num maxBlk ringMapSize) (long : 22 ≤ num.toNat)
    (more : 1 < ringChunks (pcieRingXferTotal img.length)) :
    (ringMachine (craftedUser img.offset (1 % maxBlk))).CanCall
      (fun w op => Overwritten num maxBlk w ∧
        ∃ base bytes, op = .memcpyToio .postData base (pcieRingDataBlk (1 % maxBlk)) bytes)
      (pcieRingXferUser onePoll 0 ringMapSize 0 img) (restingRing num maxBlk 21) := by
  obtain ⟨nonzeroNum, nonzeroBlk, test⟩ := accepted
  obtain ⟨idle, used⟩ := restingRing_idle num maxBlk 21
  have avail : (restingRing num maxBlk 21).avail = 21 + num := by
    rw [← idle.idle, used, idle.num]
  refine pcieRingXferUser_reaches
    (fun chunk ring w => TrafficCtx num maxBlk 21 chunk ring ∧
      (chunk = 0 → w = restingRing num maxBlk 21) ∧ (chunk = 1 → Overwritten num maxBlk w))
    0 ringMapSize 0 img more ⟨_, rfl⟩ ?_ ?_ ?_
  · intro w allocated
    have same : w = restingRing num maxBlk 21 := allocated
    have positive : ¬ (num = 0 ∨ maxBlk = 0) := fun zero => zero.elim nonzeroNum nonzeroBlk
    rw [same]
    refine canReturn_perform num ⟨idle.num.symm, rfl⟩
      (canReturn_perform maxBlk ⟨idle.maxBlk.symm, rfl⟩ ?_)
    rw [if_neg positive, if_neg (by simp [test])]
    refine canReturn_perform (21 + num) ⟨avail.symm, rfl⟩ (canReturn_done ⟨rfl, ⟨rfl, rfl, ?_, rfl⟩,
      fun _ => rfl, nofun⟩)
    show 21 + num - num = _
    rw [BitVec.add_sub_cancel, ringIndex_zero]
  · rintro chunk ring w before ⟨ctx, start, -⟩
    have first : chunk = 0 := by omega
    subst first
    rw [start rfl]
    refine canReturn_mono (ringChunkPass_overwrites long more ctx) ?_
    rintro posted w' ⟨rfl, here⟩
    exact ⟨rfl, ctx.next, nofun, fun _ => here⟩
  · rintro ring w ⟨ctx, -, overwritten⟩
    have here := overwritten rfl
    have apart : w.avail ≠ ring.curAvail := by
      rw [here.avail, ctx.curAvail]
      intro wraps
      have one : num = 1 := by
        have shifted := congrArg (· - 21) wraps
        simp only [BitVec.add_comm 21 num, BitVec.add_sub_cancel] at shifted
        exact shifted
      rw [one] at long
      exact absurd long (by decide)
    apply canCall_seq (pcieRingFillChunk_ring _ img.length _ _ w)
    rintro _ w₁ ⟨same, chunk, rfl, -⟩
    rw [same]
    obtain ⟨op, next, w₂, run, drafted, copies⟩ := pcieRingPostData_copies chunk apart
    refine ⟨op, next, w₂, run, ?_, ring.base, chunk, ?_⟩
    · rw [drafted]
      exact here.drafted long ctx _ _
    · rw [copies, ctx.curBlk, ctx.maxBlk]
      rfl

end Overwritten

end AmbaPci

import AmbaPci.Transfer

set_option autoImplicit false

/- Positions and sizes of the chunks that `pcie_ring_xfer_user` cuts an image into, and positions in
the ring. -/
namespace AmbaPci

open Interaction

theorem toNat_and_not_15 (value : BitVec 64) :
    (value &&& ~~~(15 : BitVec 64)).toNat = value.toNat / 16 * 16 := by
  have mask : ~~~(15 : BitVec 64) = BitVec.allOnes 64 <<< 4 := by decide
  have shifted : value &&& ~~~(15 : BitVec 64) = (value >>> 4) <<< 4 := by
    ext index inside
    simp only [mask, BitVec.getElem_and, BitVec.getElem_shiftLeft, BitVec.getElem_allOnes,
      BitVec.getElem_ushiftRight]
    by_cases low : index < 4
    · simp [low]
    · simp [low, BitVec.getLsbD_eq_getElem, inside, show 4 + (index - 4) = index by omega]
  rw [shifted]
  simp only [BitVec.toNat_shiftLeft, BitVec.toNat_ushiftRight, Nat.shiftRight_eq_div_pow,
    Nat.shiftLeft_eq]
  have bound := value.isLt
  omega

/-- The rounded length; the sum wraps for the fifteen largest lengths, and nothing is left then. -/
theorem pcieRingXferTotal_toNat (dataLen : BitVec 64) :
    (pcieRingXferTotal dataLen).toNat =
      if dataLen.toNat + 15 < 2 ^ 64 then (dataLen.toNat + 15) / 16 * 16 else 0 := by
  have bound := dataLen.isLt
  have fifteen : (15 : BitVec 64).toNat = 15 := rfl
  rw [pcieRingXferTotal, toNat_and_not_15, BitVec.toNat_add, fifteen]
  split
  · omega
  · omega

/-- How many chunks a total is cut into. -/
def ringChunks (total : BitVec 64) : Nat := (total.toNat + 511) / 512

/-- Where a chunk starts; past the last one, the total. -/
def ringPos (total : BitVec 64) (chunk : Nat) : BitVec 64 :=
  BitVec.ofNat 64 (min (512 * chunk) total.toNat)

def ringChunkLen (total : BitVec 64) (chunk : Nat) : Nat := min 512 (total.toNat - 512 * chunk)

theorem ringPos_toNat (total : BitVec 64) (chunk : Nat) :
    (ringPos total chunk).toNat = min (512 * chunk) total.toNat := by
  have bound := total.isLt
  rw [ringPos, BitVec.toNat_ofNat, Nat.mod_eq_of_lt (by omega)]

theorem ringPos_of_lt {total : BitVec 64} {chunk : Nat} (inside : chunk < ringChunks total) :
    (ringPos total chunk).toNat = 512 * chunk := by
  rw [ringPos_toNat]
  unfold ringChunks at inside
  omega

@[simp] theorem ringPos_zero (total : BitVec 64) : ringPos total 0 = 0 := by
  simp [ringPos]

theorem ringPos_lt_iff (total : BitVec 64) (chunk : Nat) :
    ringPos total chunk < total ↔ chunk < ringChunks total := by
  rw [BitVec.lt_def, ringPos_toNat, ringChunks]
  omega

theorem pcieRingChunkSize_toNat {total : BitVec 64} {chunk : Nat}
    (inside : chunk < ringChunks total) :
    (pcieRingChunkSize total (ringPos total chunk)).toNat = ringChunkLen total chunk := by
  have start := ringPos_of_lt inside
  have before : 512 * chunk < total.toNat := by
    unfold ringChunks at inside
    omega
  have bound := total.isLt
  have block : (512 : BitVec 64).toNat = 512 := rfl
  have left : (total - ringPos total chunk).toNat = total.toNat - 512 * chunk := by
    rw [BitVec.toNat_sub, start]
    omega
  have large : (512 : BitVec 64) < total - ringPos total chunk ↔
      512 < total.toNat - 512 * chunk := by
    rw [BitVec.lt_def, left, block]
  rw [pcieRingChunkSize, BitVec.toNat_setWidth, ringChunkLen]
  by_cases more : 512 < total.toNat - 512 * chunk
  · rw [if_pos (large.mpr more), block]
    omega
  · rw [if_neg (fun less => more (large.mp less)), left]
    omega

theorem ringChunkLen_le (total : BitVec 64) (chunk : Nat) : ringChunkLen total chunk ≤ 512 :=
  Nat.min_le_left _ _

theorem ringPos_succ {total : BitVec 64} {chunk : Nat} (inside : chunk < ringChunks total) :
    ringPos total chunk + (pcieRingChunkSize total (ringPos total chunk)).setWidth 64 =
      ringPos total (chunk + 1) := by
  apply BitVec.eq_of_toNat_eq
  rw [BitVec.toNat_add, BitVec.toNat_setWidth, pcieRingChunkSize_toNat inside,
    ringPos_of_lt inside, ringPos_toNat, ringChunkLen]
  have bound := total.isLt
  unfold ringChunks at inside
  omega

theorem ringChunks_lt_passes (total : BitVec 64) : ringChunks total < pcieRingPasses total := by
  unfold ringChunks pcieRingPasses ringBlockSize
  omega

/-- One pass of the chunk loop: the bounce buffer is filled and posted. -/
def ringChunkPass (t : Timing) (src dataLen loadAddr total epPos : BitVec 64)
    (ring : PcieRingCtx) : Host (Int × PcieRingCtx) := do
  let csz := pcieRingChunkSize total epPos
  let filled ← pcieRingFillChunk (src + epPos) dataLen epPos csz
  match filled with
  | none => pure (-efault, ring)
  | some chunk => pcieRingPostData t ring chunk csz (loadAddr + epPos)

variable (t : Timing) (src dataLen loadAddr : BitVec 64) {total : BitVec 64}

theorem pcieRingXferLoop_succ (passes : Nat) (ring : PcieRingCtx) {chunk : Nat}
    (inside : chunk < ringChunks total) :
    pcieRingXferLoop t src dataLen loadAddr total (passes + 1) ring (ringPos total chunk) =
      (ringChunkPass t src dataLen loadAddr total (ringPos total chunk) ring >>= fun posted =>
        if posted.1 ≠ 0 then pure posted
        else pcieRingXferLoop t src dataLen loadAddr total passes posted.2
          (ringPos total (chunk + 1))) := by
  rw [pcieRingXferLoop, if_pos ((ringPos_lt_iff total chunk).mpr inside), ringChunkPass,
    Prog.bind_assoc]
  dsimp only
  congr 1
  funext filled
  cases filled with
  | none => rfl
  | some bytes =>
      simp only [ringPos_succ inside]

theorem pcieRingXferLoop_end (passes : Nat) (ring : PcieRingCtx) {chunk : Nat}
    (outside : ringChunks total ≤ chunk) :
    pcieRingXferLoop t src dataLen loadAddr total (passes + 1) ring (ringPos total chunk) =
      pure (0, ring) := by
  rw [pcieRingXferLoop, if_neg]
  intro before
  rw [ringPos_lt_iff] at before
  omega

/-! Positions in the ring -/

/-- The position of post `index` in a ring that was idle when `used` was `origin`. -/
def ringIndex (origin : BitVec 32) (index : Nat) : BitVec 32 := origin + BitVec.ofNat 32 index

@[simp] theorem ringIndex_zero (origin : BitVec 32) : ringIndex origin 0 = origin :=
  BitVec.add_zero origin

theorem ringIndex_succ (origin : BitVec 32) (index : Nat) :
    ringIndex origin index + 1 = ringIndex origin (index + 1) := by
  unfold ringIndex
  rw [BitVec.ofNat_add, BitVec.add_assoc]
  rfl

theorem ringIndex_add (origin : BitVec 32) (first second : Nat) :
    ringIndex (ringIndex origin first) second = ringIndex origin (first + second) := by
  unfold ringIndex
  rw [BitVec.ofNat_add, BitVec.add_assoc]

/-- Positions less than `2 ^ 32` apart are told apart. -/
theorem ringIndex_inj {origin : BitVec 32} {first second : Nat}
    (same : ringIndex origin first = ringIndex origin second) (before : first ≤ second)
    (near : second < first + 2 ^ 32) : first = second := by
  have values := congrArg BitVec.toNat same
  unfold ringIndex at values
  rw [BitVec.toNat_add, BitVec.toNat_add, BitVec.toNat_ofNat, BitVec.toNat_ofNat] at values
  have bound := origin.isLt
  omega

theorem ringIndex_mod {num : BitVec 32} (divides : num.toNat ∣ 2 ^ 32) (origin : BitVec 32)
    (index : Nat) :
    (ringIndex origin index % num).toNat = (origin.toNat + index) % num.toNat := by
  unfold ringIndex
  rw [BitVec.toNat_umod, BitVec.toNat_add, BitVec.toNat_ofNat, Nat.add_mod_mod,
    Nat.mod_mod_of_dvd _ divides]

/-- Two numbers less than `modulus` apart leave different remainders. -/
theorem mod_ne_of_near {modulus first second : Nat} (before : first < second)
    (near : second < first + modulus) : first % modulus ≠ second % modulus := by
  intro same
  have left := Nat.div_add_mod first modulus
  have right := Nat.div_add_mod second modulus
  rw [same] at left
  have difference :
      second - first = modulus * (second / modulus) - modulus * (first / modulus) := by
    omega
  rw [← Nat.mul_sub] at difference
  have large : 1 ≤ second / modulus - first / modulus := by
    rw [Nat.one_le_iff_ne_zero]
    intro zero
    rw [zero, Nat.mul_zero] at difference
    omega
  have wide : modulus * 1 ≤ modulus * (second / modulus - first / modulus) :=
    Nat.mul_le_mul_left modulus large
  omega

theorem pcieRingDesc_eq {num : BitVec 32} (divides : num.toNat ∣ 2 ^ 32) (origin : BitVec 32)
    (index : Nat) :
    pcieRingDesc (ringIndex origin index) num = 80 + (origin.toNat + index) % num.toNat * 20 := by
  rw [pcieRingDesc, ringIndex_mod divides, rhDesc0Off]

/-- Where the slots end before the first block, so does each of them. -/
theorem pcieRingDesc_lt {num : BitVec 32} (curAvail : BitVec 32) (positive : 0 < num.toNat)
    (layout : rhDesc0Off + num.toNat * 20 ≤ ringBlockSize) :
    pcieRingDesc curAvail num + 20 ≤ 512 := by
  have slot := Nat.mod_lt curAvail.toNat positive
  unfold ringBlockSize at layout
  rw [pcieRingDesc, BitVec.toNat_umod]
  omega

/-- Data blocks lie behind the first 512 bytes. -/
theorem dataBlk_ge (maxBlk : BitVec 32) (blkid : BitVec 32) (nonzero : 0 < maxBlk.toNat) :
    512 ≤ pcieRingDataBlk (blkid % maxBlk) := by
  have below := Nat.mod_lt blkid.toNat nonzero
  have bound := maxBlk.isLt
  have one : (1 : BitVec 32).toNat = 1 := rfl
  rw [pcieRingDataBlk, BitVec.toNat_add, BitVec.toNat_umod, one, ringBlockSize,
    Nat.mod_eq_of_lt (by omega)]
  omega

end AmbaPci

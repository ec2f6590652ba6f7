import AmbaPci.BlockBounds
import AmbaPci.RingAccesses

set_option autoImplicit false

/- Where the header and the descriptor table lie in the window that the endpoint has sized. -/
namespace AmbaPci

open ByteMemory (Apart Byte)
open Interaction Interaction.Prog

/-- A word of the header or of a descriptor: in the mapping, and in no data block. -/
def WordPlaced (maxBlk : BitVec 32) (ringMapSize : BitVec 64) (off : Nat) : Prop :=
  off + 4 ≤ ringMapSize.toNat ∧ ∀ blk < maxBlk.toNat, Apart off 4 (512 * (blk + 1)) 512

/-- Word accesses are placed, and writes leave the header alone but for `used`. Block copies may go
anywhere here. -/
def AccessPlaced (maxBlk : BitVec 32) (ringMapSize : BitVec 64) : Op → Prop
  | .readl _ _ off => WordPlaced maxBlk ringMapSize off
  | .writel _ _ off _ => WordPlaced maxBlk ringMapSize off ∧ (off = rhUsedOff ∨ rhDesc0Off ≤ off)
  | _ => True

/-- Every function of the firmware path has its word accesses placed, whatever it reads, and the
two posts wherever `cur_avail` stands. -/
structure RingLayout (num maxBlk : BitVec 32) (ringMapSize : BitVec 64) : Prop where
  boardInfo : ∀ base, (pcieRingReadBoardInfo base).Calls (AccessPlaced maxBlk ringMapSize)
  epReady : ∀ t base, (pcieRingWaitEpReady t base).Calls (AccessPlaced maxBlk ringMapSize)
  ctxInit : ∀ base, (pcieRingCtxInit base ringMapSize).Calls (AccessPlaced maxBlk ringMapSize)
  poll : ∀ t base timeoutMs,
    (pcieRingXferPoll t base timeoutMs).Calls (AccessPlaced maxBlk ringMapSize)
  postData : ∀ t ring bytes csz epAddr, ring.num = num →
    (pcieRingPostData t ring bytes csz epAddr).Calls (AccessPlaced maxBlk ringMapSize)
  postCmd : ∀ t ring cmd size addr, ring.num = num →
    (pcieRingPostCmd t ring cmd size addr).Calls (AccessPlaced maxBlk ringMapSize)

/-- The descriptor table ends before the first block and before the end of the mapping. -/
def TableFits (num : BitVec 32) (ringMapSize : BitVec 64) : Prop :=
  80 + 20 * num.toNat ≤ 512 ∧ 80 + 20 * num.toNat ≤ ringMapSize.toNat

theorem wordPlaced_of_lt {maxBlk : BitVec 32} {ringMapSize : BitVec 64} {off : Nat}
    (below : off + 4 ≤ 512) (inside : off + 4 ≤ ringMapSize.toNat) :
    WordPlaced maxBlk ringMapSize off := by
  refine ⟨inside, fun blk _ => ?_⟩
  unfold Apart
  omega

theorem accessPlaced_of_access {num maxBlk : BitVec 32} {ringMapSize : BitVec 64}
    (fits : TableFits num ringMapSize) (positive : 0 < num.toNat) (curAvail : BitVec 32) {op : Op}
    {base : Mapping} {blk : Nat} (access : RingAccess base (pcieRingDesc curAvail num) blk op) :
    AccessPlaced maxBlk ringMapSize op := by
  obtain ⟨before, inside⟩ := fits
  have slot := Nat.mod_lt curAvail.toNat positive
  have header : rhDesc0Off = 80 := rfl
  have desc : pcieRingDesc curAvail num = 80 + curAvail.toNat % num.toNat * 20 := by
    rw [pcieRingDesc, BitVec.toNat_umod, header]
  cases op with
  | readl fn target off =>
      have low : off + 4 ≤ rhDesc0Off := access.2
      exact wordPlaced_of_lt (by omega) (by omega)
  | writel fn target off value =>
      rcases access.2 with used | ⟨word, within, place⟩
      · have register : rhUsedOff = 12 := rfl
        exact ⟨wordPlaced_of_lt (by omega) (by omega), Or.inl used⟩
      · exact ⟨wordPlaced_of_lt (by omega) (by omega), Or.inr (by omega)⟩
  | _ => trivial

theorem ringLayout_of_fits {num maxBlk : BitVec 32} {ringMapSize : BitVec 64}
    (fits : TableFits num ringMapSize) (positive : 0 < num.toNat) :
    RingLayout num maxBlk ringMapSize := by
  have placed : ∀ (curAvail : BitVec 32) {base : Mapping} {blk : Nat} (op : Op),
      RingAccess base (pcieRingDesc curAvail num) blk op → AccessPlaced maxBlk ringMapSize op :=
    fun curAvail _ _ _ access => accessPlaced_of_access fits positive curAvail access
  have header : ∀ (base : Mapping) (op : Op), RingAccess base (pcieRingDesc 0 num) 0 op →
      AccessPlaced maxBlk ringMapSize op := fun _ => placed 0
  constructor
  · intro base
    exact pcieRingReadBoardInfo_accesses.mono (header base)
  · intro t base
    exact (pcieRingWaitEpReady_accesses t).mono (header base)
  · intro base
    exact (pcieRingCtxInit_accesses ringMapSize).mono (header base)
  · intro t base timeoutMs
    exact (pcieRingXferPoll_accesses t timeoutMs).mono (header base)
  · rintro t ring bytes csz epAddr rfl
    exact (pcieRingPostData_accesses t ring bytes csz epAddr).mono (placed ring.curAvail)
  · rintro t ring cmd size addr rfl
    exact (pcieRingPostCmd_accesses t ring cmd size addr 0).mono (placed ring.curAvail)

/-- The last word of every slot is written by some command. -/
theorem RingLayout.lastWord {num maxBlk : BitVec 32} {ringMapSize : BitVec 64}
    (layout : RingLayout num maxBlk ringMapSize) {slot : Nat} (inside : slot < num.toNat) :
    WordPlaced maxBlk ringMapSize (80 + 20 * slot + 16) := by
  have bound := num.isLt
  have reached := pcieRingPostCmd_canCall (header_obliging num maxBlk 0)
    { num := num, curAvail := BitVec.ofNat 32 slot } 0 0 0 ()
  obtain ⟨_, op, placed, rfl⟩ := Machine.canCall_allowed reached (layout.postCmd _ _ _ _ _ rfl)
  have small : slot % 2 ^ 32 = slot := Nat.mod_eq_of_lt (by omega)
  have desc : pcieRingDesc (BitVec.ofNat 32 slot) num = 80 + 20 * slot := by
    rw [pcieRingDesc, BitVec.toNat_umod, BitVec.toNat_ofNat, small, Nat.mod_eq_of_lt inside,
      rhDesc0Off, Nat.mul_comm]
  have word := placed.1
  rw [desc] at word
  exact word

theorem fits_of_ringLayout {num maxBlk : BitVec 32} {ringMapSize : BitVec 64}
    (layout : RingLayout num maxBlk ringMapSize) (positive : 0 < num.toNat)
    (blocks : 0 < maxBlk.toNat) : TableFits num ringMapSize := by
  constructor
  · apply Nat.not_lt.mp
    intro long
    have apart := (layout.lastWord (show 21 < num.toNat by omega)).2 0 blocks
    unfold Apart at apart
    omega
  · have last := (layout.lastWord (show num.toNat - 1 < num.toNat by omega)).1
    omega

/-- On an accepted header, header and descriptors are in the mapping and clear of the blocks
exactly when there are at most 21 descriptors and, where the size test has wrapped, the mapping
holds them. -/
theorem ring_layout_iff (num maxBlk : BitVec 32) (ringMapSize : BitVec 64)
    (accepted : RingAccepts num maxBlk ringMapSize) :
    RingLayout num maxBlk ringMapSize ↔
      num.toNat ≤ 21 ∧ (maxBlk = 0xFFFFFFFF → 80 + 20 * num.toNat ≤ ringMapSize.toNat) := by
  have positive := accepted.num_pos
  have blocks := accepted.maxBlk_pos
  constructor
  · intro layout
    obtain ⟨before, inside⟩ := fits_of_ringLayout layout positive blocks
    exact ⟨by omega, fun _ => inside⟩
  · rintro ⟨few, wrapped⟩
    refine ringLayout_of_fits ⟨by omega, ?_⟩ positive
    by_cases ones : maxBlk = 0xFFFFFFFF
    · exact wrapped ones
    · have large := accepted.mapSize ones
      omega

theorem ring_layout_iff_small : RingLayout 4 16 0x10000 :=
  (ring_layout_iff 4 16 0x10000 ⟨by decide, by decide, by decide⟩).mpr ⟨by decide, by decide⟩

/-- A header with 32 descriptors: the table reaches into the first data block. -/
theorem ring_layout_long :
    ∃ num maxBlk ringMapSize, RingAccepts num maxBlk ringMapSize ∧
      ¬ RingLayout num maxBlk ringMapSize := by
  refine ⟨32, 64, 0x10000, ⟨by decide, by decide, by decide⟩, fun layout => ?_⟩
  have fits := fits_of_ringLayout layout (by decide) (by decide)
  revert fits
  unfold TableFits
  decide

end AmbaPci

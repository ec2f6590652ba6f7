import AmbaPci.RingArithmetic

set_option autoImplicit false

/- Where the ring functions read and write: the registers of the header, the five words of one
descriptor, and one data block. -/
namespace AmbaPci

open ByteMemory (Byte)
open Interaction Interaction.Prog

/-- The accesses to the mapping `base`: words of the header are read, `used` and the words of the
descriptor at `desc` are written, and a chunk is copied to `blk`. -/
def RingAccess (base : Mapping) (desc blk : Nat) : Op → Prop
  | .readl _ target off => target = base ∧ off + 4 ≤ rhDesc0Off
  | .writel _ target off _ => target = base ∧ (off = rhUsedOff ∨ ∃ word < 5, off = desc + 4 * word)
  | .memcpyToio _ target off _ => target = base ∧ off = blk
  | .jiffies => True
  | .usleepRange => True
  | .spin => True
  | _ => False

variable {base : Mapping} {desc blk : Nat}

theorem pcieRingW32_accesses {α : Type} {fn : RingFn} {value : BitVec 32} (word : Nat)
    {next : Unit → Host α} (within : word < 5)
    (after : (next ()).Calls (RingAccess base desc blk)) :
    (pcieRingW32 fn base (desc + 4 * word) value >>= next).Calls (RingAccess base desc blk) :=
  Calls.perform ⟨rfl, Or.inr ⟨word, within, rfl⟩⟩ fun _ => after

theorem pcieRingWaitLoop_accesses {off : Nat} (header : off + 4 ≤ rhDesc0Off) (want : BitVec 32)
    (equal : Bool) (deadline : BitVec 64) (polls : Nat) :
    (pcieRingWaitLoop base off want equal deadline polls).Calls (RingAccess base desc blk) := by
  induction polls with
  | zero => exact ⟨trivial, fun impossible => nomatch impossible⟩
  | succ polls ih =>
      apply Calls.perform trivial; intro now
      split
      · apply Calls.perform ⟨rfl, header⟩; intro val
        by_cases awaited : if equal then val = want else val ≠ want
        · rw [if_pos awaited]
          trivial
        · rw [if_neg awaited]
          exact Calls.perform trivial fun _ => ih
      · trivial

theorem pcieRingWaitU32_accesses (t : Timing) {off : Nat} (header : off + 4 ≤ rhDesc0Off)
    (want : BitVec 32) (equal : Bool) (timeoutMs : Nat) :
    (pcieRingWaitU32 t base off want equal timeoutMs).Calls (RingAccess base desc blk) :=
  Calls.perform trivial fun _ => pcieRingWaitLoop_accesses header want equal _ _

theorem pcieRingPollLoop_accesses (deadline : BitVec 64) (polls : Nat) :
    (pcieRingPollLoop base deadline polls).Calls (RingAccess base desc blk) := by
  induction polls with
  | zero => exact ⟨trivial, fun impossible => nomatch impossible⟩
  | succ polls ih =>
      apply Calls.perform trivial; intro now
      split
      · apply Calls.perform ⟨rfl, by decide⟩; intro used
        apply Calls.perform ⟨rfl, by decide⟩; intro num
        apply Calls.perform ⟨rfl, by decide⟩; intro avail
        split
        · trivial
        · exact Calls.perform trivial fun _ => ih
      · trivial

theorem pcieRingXferPoll_accesses (t : Timing) (timeoutMs : Nat) :
    (pcieRingXferPoll t base timeoutMs).Calls (RingAccess base desc blk) :=
  Calls.perform trivial fun _ => pcieRingPollLoop_accesses _ _

theorem pcieRingReadWords_accesses {index count : Nat} (inside : index + count ≤ 14) :
    (pcieRingReadWords base index count).Calls (RingAccess base desc blk) := by
  induction count generalizing index with
  | zero => trivial
  | succ count ih =>
      have header : rhBdOff + index * 4 + 4 ≤ rhDesc0Off := by
        unfold rhBdOff rhDesc0Off
        omega
      apply Calls.perform ⟨rfl, header⟩; intro word
      exact Calls.bind (ih (by omega)) fun _ => trivial

theorem pcieRingReadBoardInfo_accesses :
    (pcieRingReadBoardInfo base).Calls (RingAccess base desc blk) :=
  Calls.bind (pcieRingReadWords_accesses (by decide)) fun _ => trivial

theorem pcieRingWaitEpReady_accesses (t : Timing) :
    (pcieRingWaitEpReady t base).Calls (RingAccess base desc blk) := by
  apply Calls.bind (pcieRingWaitU32_accesses t (by decide) ringMagic true 5000); intro ret
  split
  · trivial
  · exact pcieRingWaitU32_accesses t (by decide) ringStateOnline true 5000

/-- Setting up a ring context reads registers, and does nothing else. -/
theorem pcieRingCtxInit_reads (base : Mapping) (ringMapSize : BitVec 64) :
    (pcieRingCtxInit base ringMapSize).Calls fun op =>
      ∃ off, off + 4 ≤ rhDesc0Off ∧ op = .readl .ctxInit base off := by
  apply Calls.perform ⟨rhNumOff, by decide, rfl⟩; intro num
  apply Calls.perform ⟨rhMaxBlkOff, by decide, rfl⟩; intro maxBlk
  split
  · trivial
  · split
    · trivial
    · exact Calls.perform ⟨rhAvailOff, by decide, rfl⟩ fun _ => trivial

theorem pcieRingCtxInit_accesses (ringMapSize : BitVec 64) :
    (pcieRingCtxInit base ringMapSize).Calls (RingAccess base desc blk) := by
  apply (pcieRingCtxInit_reads base ringMapSize).mono
  rintro op ⟨off, header, rfl⟩
  exact ⟨rfl, header⟩

/-- The words of the descriptor at `cur_avail`, the block at `cur_blk`, then `used`. -/
theorem pcieRingPostData_accesses (t : Timing) (ring : PcieRingCtx) (bytes : List Byte)
    (csz : BitVec 32) (epAddr : BitVec 64) :
    (pcieRingPostData t ring bytes csz epAddr).Calls (RingAccess ring.base
      (pcieRingDesc ring.curAvail ring.num) (pcieRingDataBlk (ring.curBlk % ring.maxBlk))) := by
  apply Calls.bind (pcieRingWaitU32_accesses t (by decide) _ _ _); intro ret
  split
  · trivial
  · apply pcieRingW32_accesses 0 (by decide)
    apply pcieRingW32_accesses 1 (by decide)
    apply pcieRingW32_accesses 2 (by decide)
    apply pcieRingW32_accesses 3 (by decide)
    apply pcieRingW32_accesses 4 (by decide)
    apply Calls.perform ⟨rfl, rfl⟩; intro _
    apply Calls.perform ⟨rfl, by decide⟩; intro used
    exact Calls.perform ⟨rfl, Or.inl rfl⟩ fun _ => trivial

theorem pcieRingPostCmd_accesses (t : Timing) (ring : PcieRingCtx) (cmd size : BitVec 32)
    (addr : BitVec 64) (blk : Nat) :
    (pcieRingPostCmd t ring cmd size addr).Calls (RingAccess ring.base
      (pcieRingDesc ring.curAvail ring.num) blk) := by
  apply Calls.bind (pcieRingWaitU32_accesses t (by decide) _ _ _); intro ret
  split
  · trivial
  · apply pcieRingW32_accesses 0 (by decide)
    apply pcieRingW32_accesses 1 (by decide)
    apply pcieRingW32_accesses 2 (by decide)
    apply pcieRingW32_accesses 3 (by decide)
    apply pcieRingW32_accesses 4 (by decide)
    apply Calls.perform ⟨rfl, by decide⟩; intro used
    exact Calls.perform ⟨rfl, Or.inl rfl⟩ fun _ => trivial

/-- The operations that send an image: the accesses to the ring, its buffer and user memory. -/
def Op.Sends : Op → Prop
  | .readl _ _ _ => True
  | .writel _ _ _ _ => True
  | .memcpyToio _ _ _ _ => True
  | .jiffies => True
  | .usleepRange => True
  | .kmalloc _ => True
  | .copyFromUser _ _ => True
  | .spin => True
  | _ => False

/-- A write that leaves the header alone but for `used`. -/
def Op.SparesHeader : Op → Prop
  | .writel _ _ off _ => off = rhUsedOff ∨ rhDesc0Off ≤ off
  | .memcpyToio _ _ off _ => rhDesc0Off ≤ off
  | _ => True

theorem RingAccess.sends {op : Op} (access : RingAccess base desc blk op)
    (behindDesc : rhDesc0Off ≤ desc) (behindBlk : rhDesc0Off ≤ blk) :
    op.Sends ∧ op.SparesHeader := by
  cases op with
  | writel fn target off value =>
      refine ⟨trivial, ?_⟩
      rcases access.2 with used | ⟨word, within, place⟩
      · exact Or.inl used
      · exact Or.inr (by omega)
  | memcpyToio fn target off bytes =>
      refine ⟨trivial, ?_⟩
      show rhDesc0Off ≤ off
      have place : off = blk := access.2
      omega
  | readl | jiffies | usleepRange | kmalloc | copyFromUser | spin => exact ⟨trivial, trivial⟩
  | _ => exact access.elim

theorem pcieRingDesc_ge (curAvail num : BitVec 32) : rhDesc0Off ≤ pcieRingDesc curAvail num :=
  Nat.le_add_right _ _

/-- Registers are read and `used` is written, with no descriptor or block in sight. -/
theorem RingAccess.registers {op : Op} (access : RingAccess base rhDesc0Off rhDesc0Off op) :
    op.Sends ∧ op.SparesHeader := access.sends (Nat.le_refl _) (Nat.le_refl _)

theorem pcieRingFillChunk_sends (src dataLen epPos : BitVec 64) (csz : BitVec 32) :
    (pcieRingFillChunk src dataLen epPos csz).Calls fun op => op.Sends ∧ op.SparesHeader := by
  unfold pcieRingFillChunk
  split
  · trivial
  · apply Calls.perform ⟨trivial, trivial⟩; intro copied
    cases copied with
    | none => trivial
    | some bytes => trivial

theorem pcieRingCtxInit_maxBlk {ringMapSize : BitVec 64} {ret : Int} {ring : PcieRingCtx}
    (returned : Returns (fun _ _ => True) (pcieRingCtxInit base ringMapSize) (ret, ring))
    (zero : ret = 0) : 0 < ring.maxBlk.toNat := by
  obtain ⟨num, -, returned⟩ := (returns_perform_iff _ _ _).mp returned
  obtain ⟨maxBlk, -, returned⟩ := (returns_perform_iff _ _ _).mp returned
  split at returned
  · cases (returns_done_iff _ _).mp returned
    exact absurd zero (by decide)
  · rename_i nonzero
    split at returned
    · cases (returns_done_iff _ _).mp returned
      exact absurd zero (by decide)
    · obtain ⟨avail, -, returned⟩ := (returns_perform_iff _ _ _).mp returned
      cases (returns_done_iff _ _).mp returned
      exact BitVec.toNat_pos_of_ne_zero fun none => nonzero (Or.inr none)

theorem pcieRingPostData_maxBlk {t : Timing} {ring ring' : PcieRingCtx} {bytes : List Byte}
    {csz : BitVec 32} {epAddr : BitVec 64} {ret : Int}
    (returned : Returns (fun _ _ => True) (pcieRingPostData t ring bytes csz epAddr) (ret, ring')) :
    ring'.maxBlk = ring.maxBlk := by
  obtain ⟨waited, -, returned⟩ := (returns_bind_iff _ _ _).mp returned
  split at returned
  · cases (returns_done_iff _ _).mp returned
    rfl
  · simp only [pcieRingW32, pcieRingR32, perform, perform_bind, returns_call_iff] at returned
    obtain ⟨_, -, _, -, _, -, _, -, _, -, _, -, used, -, _, -, returned⟩ := returned
    cases (returns_done_iff _ _).mp returned
    rfl

theorem pcieRingXferLoop_sends (t : Timing) (src dataLen loadAddr total : BitVec 64)
    (passes : Nat) (ring : PcieRingCtx) (epPos : BitVec 64) (blocks : 0 < ring.maxBlk.toNat) :
    (pcieRingXferLoop t src dataLen loadAddr total passes ring epPos).Calls fun op =>
      op.Sends ∧ op.SparesHeader := by
  induction passes generalizing ring epPos with
  | zero => exact ⟨⟨trivial, trivial⟩, fun impossible => nomatch impossible⟩
  | succ passes ih =>
      unfold pcieRingXferLoop
      split
      · apply Calls.bind (pcieRingFillChunk_sends _ dataLen epPos _); intro filled
        cases filled with
        | none => trivial
        | some chunk =>
            have low : rhDesc0Off ≤ 512 := by decide
            have behind := Nat.le_trans low (dataBlk_ge ring.maxBlk ring.curBlk blocks)
            have sends := (pcieRingPostData_accesses t ring chunk (pcieRingChunkSize total epPos)
              (loadAddr + epPos)).mono fun _ access =>
                access.sends (pcieRingDesc_ge _ _) behind
            apply Calls.seq sends
            rintro ⟨ret, ring'⟩ returned
            dsimp only
            split
            · trivial
            · apply ih ring' _
              rw [pcieRingPostData_maxBlk returned]
              exact blocks
      · trivial

/-- An image is sent without a write to the header but for `used`. -/
theorem pcieRingXferUser_sparesHeader (t : Timing) (base : Mapping)
    (ringMapSize userBase : BitVec 64) (img : FwImageDesc) :
    (pcieRingXferUser t base ringMapSize userBase img).Calls fun op =>
      op.Sends ∧ op.SparesHeader := by
  apply Calls.perform ⟨trivial, trivial⟩; intro chunk
  split
  · trivial
  · have init : (pcieRingCtxInit base ringMapSize).Calls (RingAccess base rhDesc0Off rhDesc0Off) :=
      pcieRingCtxInit_accesses ringMapSize
    apply Calls.seq (init.mono fun _ => RingAccess.registers)
    rintro ⟨ret, ring⟩ returned
    dsimp only
    split
    · trivial
    · rename_i zero
      have blocks := pcieRingCtxInit_maxBlk returned (Decidable.not_not.mp zero)
      apply Calls.bind (pcieRingXferLoop_sends t _ img.length _ _ _ ring 0 blocks)
      rintro ⟨ret, ring⟩
      dsimp only
      split
      · trivial
      · have cmd := (pcieRingPostCmd_accesses t ring (pcieRingTail img.type img.length).1
          (pcieRingTail img.type img.length).2 (pcieFwLoadAddr img.type) rhDesc0Off).mono
          fun _ access => access.sends (pcieRingDesc_ge _ _) (Nat.le_refl _)
        have poll : (pcieRingXferPoll t base 5000).Calls (RingAccess base rhDesc0Off rhDesc0Off) :=
          pcieRingXferPoll_accesses t 5000
        apply Calls.bind cmd; intro posted
        split
        · trivial
        · exact poll.mono fun _ => RingAccess.registers

theorem pcieRingXferUser_sends (t : Timing) (base : Mapping) (ringMapSize userBase : BitVec 64)
    (img : FwImageDesc) : (pcieRingXferUser t base ringMapSize userBase img).Calls Op.Sends :=
  (pcieRingXferUser_sparesHeader t base ringMapSize userBase img).mono fun _ => And.left

end AmbaPci

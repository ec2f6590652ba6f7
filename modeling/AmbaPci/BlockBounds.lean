import AmbaPci.RingRuns

set_option autoImplicit false

/- Whether the data blocks that `pcie_ring_xfer_user` writes lie inside the mapped BAR, for the
header registers that `pcie_ring_ctx_init` has read. -/
namespace AmbaPci

open ByteMemory (Byte)
open Interaction Interaction.Machine

/-- The registers return fixed values while the ring context is set up; any other reply is free. -/
def headerReplies (num maxBlk avail : BitVec 32) : (op : Op) → op.Reply → Prop
  | .readl .ctxInit _ off, value =>
      (off = rhNumOff → value = num) ∧ (off = rhMaxBlkOff → value = maxBlk) ∧
        (off = rhAvailOff → value = avail)
  | _, _ => True

abbrev headerMachine (num maxBlk avail : BitVec 32) : Machine Op Op.Reply Unit :=
  ofReplies (headerReplies num maxBlk avail)

/-- In every transfer of an image of the given length on this header, every data block is written
inside the mapping. -/
def BlockWritesInside (num maxBlk avail : BitVec 32) (ringMapSize length : BitVec 64) : Prop :=
  ∀ (t : Timing) (base : Mapping) (userBase : BitVec 64) (img : FwImageDesc),
    img.length = length → ∀ (fn : RingFn) (target : Mapping) (off : Nat) (bytes : List Byte)
      (next : Unit → Host Int), (headerMachine num maxBlk avail).Steps
        (pcieRingXferUser t base ringMapSize userBase img, ())
        (.call (.memcpyToio fn target off bytes) next, ()) →
      target = base ∧ off + bytes.length ≤ ringMapSize.toNat

/-- Every chunk fits behind the start of its block. -/
def BlocksFit (maxBlk : BitVec 32) (ringMapSize total : BitVec 64) : Prop :=
  ∀ chunk < ringChunks total,
    pcieRingDataBlk (BitVec.ofNat 32 chunk % maxBlk) + ringChunkLen total chunk ≤
      ringMapSize.toNat

/-! Arithmetic of the size test -/

theorem pcieRingMapTooSmall_iff (maxBlk : BitVec 32) (ringMapSize : BitVec 64) :
    pcieRingMapTooSmall maxBlk ringMapSize = true ↔
      ringMapSize.toNat < (maxBlk + 1).toNat * 512 := by
  have bound := (maxBlk + 1).isLt
  have wide : ((maxBlk + 1).setWidth 64 * BitVec.ofNat 64 ringBlockSize).toNat =
      (maxBlk + 1).toNat * 512 := by
    rw [BitVec.toNat_mul, BitVec.toNat_setWidth, BitVec.toNat_ofNat, ringBlockSize]
    omega
  rw [pcieRingMapTooSmall, decide_eq_true_eq, BitVec.lt_def, wide]

/-- A block number below `max_blk` does not wrap when it is counted from one. -/
theorem pcieRingDataBlk_mod (blk : BitVec 32) {maxBlk : BitVec 32} (nonzero : maxBlk ≠ 0) :
    pcieRingDataBlk (blk % maxBlk) = (blk.toNat % maxBlk.toNat + 1) * 512 := by
  have below := Nat.mod_lt blk.toNat (BitVec.toNat_pos_of_ne_zero nonzero)
  have bound := maxBlk.isLt
  have one : (1 : BitVec 32).toNat = 1 := rfl
  rw [pcieRingDataBlk, BitVec.toNat_add, BitVec.toNat_umod, one, ringBlockSize,
    Nat.mod_eq_of_lt (by omega)]

theorem RingAccepts.num_pos {num maxBlk : BitVec 32} {ringMapSize : BitVec 64}
    (accepted : RingAccepts num maxBlk ringMapSize) : 0 < num.toNat :=
  BitVec.toNat_pos_of_ne_zero accepted.1

theorem RingAccepts.maxBlk_pos {num maxBlk : BitVec 32} {ringMapSize : BitVec 64}
    (accepted : RingAccepts num maxBlk ringMapSize) : 0 < maxBlk.toNat :=
  BitVec.toNat_pos_of_ne_zero accepted.2.1

/-- Unless `max_blk + 1` wraps, an accepted mapping holds the header and every block. -/
theorem RingAccepts.mapSize {num maxBlk : BitVec 32} {ringMapSize : BitVec 64}
    (accepted : RingAccepts num maxBlk ringMapSize) (exact' : maxBlk ≠ 0xFFFFFFFF) :
    (maxBlk.toNat + 1) * 512 ≤ ringMapSize.toNat := by
  have large : ¬ ringMapSize.toNat < (maxBlk + 1).toNat * 512 := by
    rw [← pcieRingMapTooSmall_iff, accepted.2.2]
    decide
  have bound := maxBlk.isLt
  have apart : maxBlk.toNat ≠ 4294967295 := fun same => exact' (BitVec.eq_of_toNat_eq same)
  have one : (1 : BitVec 32).toNat = 1 := rfl
  rw [BitVec.toNat_add, one, Nat.mod_eq_of_lt (by omega)] at large
  omega

/-- The size test then covers every chunk. -/
theorem blocksFit_of_exact {num maxBlk : BitVec 32} {ringMapSize total : BitVec 64}
    (accepted : RingAccepts num maxBlk ringMapSize) (exact' : maxBlk ≠ 0xFFFFFFFF) :
    BlocksFit maxBlk ringMapSize total := by
  have large := accepted.mapSize exact'
  intro chunk inside
  rw [pcieRingDataBlk_mod _ accepted.2.1]
  have below := Nat.mod_lt (BitVec.ofNat 32 chunk).toNat accepted.maxBlk_pos
  have short := ringChunkLen_le total chunk
  calc ((BitVec.ofNat 32 chunk).toNat % maxBlk.toNat + 1) * 512 + ringChunkLen total chunk
      ≤ maxBlk.toNat * 512 + 512 := Nat.add_le_add (Nat.mul_le_mul_right 512 below) short
    _ = (maxBlk.toNat + 1) * 512 := (Nat.succ_mul _ _).symm
    _ ≤ ringMapSize.toNat := large

/-- With `max_blk` all ones the blocks reach up to the end of the image, or of the last block. -/
theorem blocksFit_iff_of_wrapped (ringMapSize total : BitVec 64) :
    BlocksFit 0xFFFFFFFF ringMapSize total ↔
      total.toNat = 0 ∨ 512 + min total.toNat (2 ^ 41 - 512) ≤ ringMapSize.toNat := by
  have nonzero : (0xFFFFFFFF : BitVec 32) ≠ 0 := by decide
  have ones : (0xFFFFFFFF : BitVec 32).toNat = 4294967295 := rfl
  unfold BlocksFit
  simp only [pcieRingDataBlk_mod _ nonzero, ones, BitVec.toNat_ofNat, ringChunkLen, ringChunks]
  constructor
  · intro fits
    by_cases empty : total.toNat = 0
    · exact Or.inl empty
    · right
      have last := fits (min ((total.toNat + 511) / 512) 4294967295 - 1) (by omega)
      omega
  · rintro (empty | large) chunk inside
    · omega
    · omega

theorem accepted_blocksFit_iff (num maxBlk : BitVec 32) (ringMapSize total : BitVec 64) :
    (RingAccepts num maxBlk ringMapSize → BlocksFit maxBlk ringMapSize total) ↔
      num = 0 ∨ maxBlk ≠ 0xFFFFFFFF ∨ total.toNat = 0 ∨
        512 + min total.toNat (2 ^ 41 - 512) ≤ ringMapSize.toNat := by
  by_cases zero : num = 0
  · simp [zero, RingAccepts]
  · by_cases wrapped : maxBlk = 0xFFFFFFFF
    · subst wrapped
      have accepted : RingAccepts num 0xFFFFFFFF ringMapSize := by
        refine ⟨zero, by decide, ?_⟩
        rw [← Bool.not_eq_true, pcieRingMapTooSmall_iff]
        simp
      simp only [accepted, true_imp_iff, zero, false_or, ne_eq, not_true_eq_false,
        blocksFit_iff_of_wrapped]
    · constructor
      · intro _
        exact Or.inr (Or.inl wrapped)
      · intro _ accepted
        exact blocksFit_of_exact accepted wrapped

/-! Every write is inside when the blocks fit -/

/-- Block writes go into the mapping; other operations may be anything. -/
def BlockInside (base : Mapping) (ringMapSize : BitVec 64) (_ : Unit) : Op → Prop
  | .memcpyToio _ target off bytes => target = base ∧ off + bytes.length ≤ ringMapSize.toNat
  | _ => True

section Inside

variable {num maxBlk avail : BitVec 32} {base : Mapping} {ringMapSize : BitVec 64}

theorem header_idles :
    Idles (headerMachine num maxBlk avail) (BlockInside base ringMapSize) fun _ => True where
  stable := ofReplies_stable _ _
  jiffiesReady _ _ := trivial
  jiffies _ _ _ _ _ := trivial
  sleepReady _ _ := trivial
  sleep _ _ _ _ _ := trivial
  spinReady _ _ := trivial

theorem pcieRingW32_inside {α : Type} {post : α → Unit → Prop} {next : Unit → Host α}
    {fn : RingFn} {target : Mapping} {off : Nat} {value : BitVec 32}
    (rest : (headerMachine num maxBlk avail).wp (BlockInside base ringMapSize) post (next ()) ()) :
    (headerMachine num maxBlk avail).wp (BlockInside base ringMapSize) post
      (pcieRingW32 fn target off value >>= next) () :=
  wp_perform (ofReplies_stable _ fun _ => True) trivial (fun _ _ => trivial) fun _ _ _ _ _ => rest

/-- `pcie_ring_post_data` when its chunk fits behind its block. -/
theorem pcieRingPostData_inside (t : Timing) {chunk : Nat} {ring : PcieRingCtx}
    (at' : RingAt num maxBlk base chunk ring) (bytes : List Byte) (csz : BitVec 32)
    (epAddr : BitVec 64)
    (fits : pcieRingDataBlk (BitVec.ofNat 32 chunk % maxBlk) + bytes.length ≤ ringMapSize.toNat) :
    (headerMachine num maxBlk avail).wp (BlockInside base ringMapSize)
      (fun posted _ => posted.1 = 0 → RingAt num maxBlk base (chunk + 1) posted.2)
      (pcieRingPostData t ring bytes csz epAddr) () := by
  have stable := ofReplies_stable (headerReplies num maxBlk avail) fun _ => True
  apply wp_seq (pcieRingWaitU32_wp header_idles stable t ring.base rhAvailOff ring.curAvail false
    5000 (fun _ _ => trivial) (fun _ _ _ _ _ _ => trivial) (fun _ _ _ _ _ _ => trivial) trivial)
  intro ret _ _
  split
  · rename_i failed
    exact wp_done stable trivial fun _ _ zero => absurd zero failed
  · apply pcieRingW32_inside
    apply pcieRingW32_inside
    apply pcieRingW32_inside
    apply pcieRingW32_inside
    apply pcieRingW32_inside
    refine wp_perform stable trivial (fun _ _ => ⟨at'.base, ?_⟩) fun _ _ _ _ _ => ?_
    · rw [at'.curBlk, at'.maxBlk]
      exact fits
    · refine wp_perform stable trivial (fun _ _ => trivial) fun _ used _ _ _ => ?_
      apply pcieRingW32_inside
      exact wp_done stable trivial fun _ _ _ => at'.next

theorem ringChunkPass_inside (t : Timing) (src dataLen loadAddr total : BitVec 64)
    (fits : BlocksFit maxBlk ringMapSize total) {chunk : Nat} (inside : chunk < ringChunks total)
    {ring : PcieRingCtx} (at' : RingAt num maxBlk base chunk ring) :
    (headerMachine num maxBlk avail).wp (BlockInside base ringMapSize)
      (fun posted _ => posted.1 = 0 → RingAt num maxBlk base (chunk + 1) posted.2)
      (ringChunkPass t src dataLen loadAddr total (ringPos total chunk) ring) () := by
  have stable := ofReplies_stable (headerReplies num maxBlk avail) fun _ => True
  apply wp_seq (pcieRingFillChunk_wp stable (fun _ _ => True) _ dataLen _ _ (fun _ _ _ => trivial)
    (fun _ _ _ _ _ _ => ⟨trivial, fun _ _ => trivial⟩) trivial)
  intro filled _ image
  cases filled with
  | none => exact wp_done stable trivial fun _ _ zero =>
      absurd zero (show (-efault : Int) ≠ 0 by decide)
  | some bytes =>
      apply pcieRingPostData_inside t at'
      rw [(image.2 bytes rfl).length, pcieRingChunkSize_toNat inside]
      exact fits chunk inside

theorem pcieRingPostCmd_inside (t : Timing) (ring : PcieRingCtx) (cmd size : BitVec 32)
    (addr : BitVec 64) :
    (headerMachine num maxBlk avail).wp (BlockInside base ringMapSize) (fun _ _ => True)
      (pcieRingPostCmd t ring cmd size addr) () := by
  have stable := ofReplies_stable (headerReplies num maxBlk avail) fun _ => True
  apply wp_seq (pcieRingWaitU32_wp header_idles stable t ring.base rhAvailOff ring.curAvail false
    5000 (fun _ _ => trivial) (fun _ _ _ _ _ _ => trivial) (fun _ _ _ _ _ _ => trivial) trivial)
  intro ret _ _
  split
  · exact wp_done stable trivial fun _ _ => trivial
  · apply pcieRingW32_inside
    apply pcieRingW32_inside
    apply pcieRingW32_inside
    apply pcieRingW32_inside
    apply pcieRingW32_inside
    refine wp_perform stable trivial (fun _ _ => trivial) fun _ used _ _ _ => ?_
    apply pcieRingW32_inside
    exact wp_done stable trivial fun _ _ => trivial

theorem header_pollReads (base' : Mapping) :
    PollReads (headerMachine num maxBlk avail) (BlockInside base ringMapSize) base' (fun _ => True)
      (fun _ _ => True) (fun _ _ _ => True) (fun _ => True) where
  usedStable _ := ofReplies_stable _ _
  numStable _ _ := ofReplies_stable _ _
  settled := ofReplies_stable _ _
  usedReady _ _ := trivial
  readUsed _ _ _ _ _ := trivial
  numReady _ _ _ := trivial
  readNum _ _ _ _ _ _ := trivial
  availReady _ _ _ _ := trivial
  idle _ _ _ _ _ _ _ _ := trivial
  busy _ _ _ _ _ _ _ _ := trivial

/-- `pcie_ring_ctx_init` sets the context up exactly when it accepts the header. -/
theorem pcieRingCtxInit_inside (base : Mapping) :
    (headerMachine num maxBlk avail).wp (BlockInside base ringMapSize)
      (fun init _ => init.1 = 0 → RingAccepts num maxBlk ringMapSize ∧
        RingAt num maxBlk base 0 init.2)
      (pcieRingCtxInit base ringMapSize) () := by
  have stable := ofReplies_stable (headerReplies num maxBlk avail) fun _ => True
  refine wp_perform stable trivial (fun _ _ => trivial) fun _ n _ _ readNum => ?_
  have sameNum : n = num := readNum.1 rfl
  refine wp_perform stable trivial (fun _ _ => trivial) fun _ m _ _ readMaxBlk => ?_
  have sameMaxBlk : m = maxBlk := readMaxBlk.2.1 rfl
  subst sameNum sameMaxBlk
  split
  · exact wp_done stable trivial fun _ _ zero => absurd zero (show (-einval : Int) ≠ 0 by decide)
  · rename_i nonzero
    split
    · exact wp_done stable trivial fun _ _ zero =>
        absurd zero (show (-einval : Int) ≠ 0 by decide)
    · rename_i large
      refine wp_perform stable trivial (fun _ _ => trivial) fun _ a _ _ _ => ?_
      refine wp_done stable trivial fun _ _ _ => ⟨⟨?_, ?_, ?_⟩, ⟨rfl, rfl, rfl, rfl⟩⟩
      · exact fun zero => nonzero (Or.inl zero)
      · exact fun zero => nonzero (Or.inr zero)
      · simpa using large

theorem header_stages (t : Timing) (base : Mapping) (userBase : BitVec 64) (img : FwImageDesc)
    (fits : RingAccepts num maxBlk ringMapSize →
      BlocksFit maxBlk ringMapSize (pcieRingXferTotal img.length)) :
    XferStages (headerMachine num maxBlk avail) (BlockInside base ringMapSize) t base ringMapSize
      userBase img (fun _ => True)
      (fun chunk ring _ => RingAccepts num maxBlk ringMapSize ∧ RingAt num maxBlk base chunk ring)
      (fun _ _ => True) where
  startStable := ofReplies_stable _ _
  stable _ _ := ofReplies_stable _ _
  allocReady _ _ := trivial
  alloc _ _ _ _ _ := trivial
  refused _ _ := wp_done (ofReplies_stable _ fun _ => True) trivial fun _ _ => trivial
  init _ _ := by
    apply wp_mono (pcieRingCtxInit_inside base)
    intro init _ accepted
    split
    · exact wp_done (ofReplies_stable _ fun _ => True) trivial fun _ _ => trivial
    · rename_i zero
      exact accepted (Decidable.not_not.mp zero)
  pass chunk ring _ inside here := by
    apply wp_mono (ringChunkPass_inside t _ img.length _ _ (fits here.1) inside here.2)
    intro posted _ next
    split
    · exact wp_done (ofReplies_stable _ fun _ => True) trivial fun _ _ => trivial
    · rename_i zero
      exact ⟨here.1, next (Decidable.not_not.mp zero)⟩
  close ring _ _ := by
    apply wp_mono (pcieRingPostCmd_inside t ring _ _ _)
    intro closed _ _
    split
    · exact wp_done (ofReplies_stable _ fun _ => True) trivial fun _ _ => trivial
    · exact wp_mono (pcieRingXferPoll_wp header_idles (header_pollReads base) t 5000 trivial)
        fun _ _ _ => trivial

end Inside

theorem header_obliging (num maxBlk avail : BitVec 32) :
    Obliging (headerMachine num maxBlk avail) num maxBlk avail where
  jiffies _ _ := ⟨(), trivial⟩
  read _ fn _ _ _ other := ⟨(), by cases fn <;> trivial⟩
  readNum _ _ := ⟨(), fun _ => rfl, nofun, nofun⟩
  readMaxBlk _ _ := ⟨(), nofun, fun _ => rfl, nofun⟩
  readAvail _ _ := ⟨(), nofun, nofun, fun _ => rfl⟩
  write _ _ _ _ _ := ⟨(), trivial⟩
  block _ _ _ _ _ := ⟨(), trivial⟩
  alloc _ := ⟨(), trivial⟩
  copy _ _ length := ⟨Vector.replicate length 0, (), trivial⟩
  master _ _ := ⟨(), trivial⟩

/-- The blocks are all written inside the mapping exactly when none of them reaches past it, once
the header is accepted. -/
theorem blockWritesInside_iff_fit (num maxBlk avail : BitVec 32) (ringMapSize length : BitVec 64) :
    BlockWritesInside num maxBlk avail ringMapSize length ↔
      (RingAccepts num maxBlk ringMapSize →
        BlocksFit maxBlk ringMapSize (pcieRingXferTotal length)) := by
  constructor
  · intro writes accepted chunk inside
    obtain ⟨op, next, stop, reached, wanted⟩ := pcieRingXferUser_canCall
      (header_obliging num maxBlk avail) accepted 0 0 ⟨0, 0, length⟩ inside ()
    cases op with
    | memcpyToio fn target off bytes =>
        obtain ⟨-, -, here, size⟩ := wanted
        rw [← here, ← size]
        exact (writes onePoll 0 0 ⟨0, 0, length⟩ rfl fn target off bytes next reached).2
    | _ => exact absurd wanted id
  · rintro fits t base userBase img rfl fn target off bytes next run
    exact wp_guard (XferStages.wp (header_stages t base userBase img fits) trivial) run

/-- The size test covers every block unless `max_blk` is all ones, so that `max_blk + 1` wraps to
zero and every mapping is large enough; then it is up to the image and the mapping. -/
theorem block_writes_inside_iff (num maxBlk avail : BitVec 32) (ringMapSize length : BitVec 64) :
    BlockWritesInside num maxBlk avail ringMapSize length ↔
      num = 0 ∨ maxBlk ≠ 0xFFFFFFFF ∨ length = 0 ∨ 2 ^ 64 ≤ length.toNat + 15 ∨
        512 + min ((length.toNat + 15) / 16 * 16) (2 ^ 41 - 512) ≤ ringMapSize.toNat := by
  have bound := length.isLt
  have zero : length = 0 ↔ length.toNat = 0 :=
    ⟨fun same => congrArg BitVec.toNat same, fun same => BitVec.eq_of_toNat_eq same⟩
  rw [blockWritesInside_iff_fit, accepted_blocksFit_iff, pcieRingXferTotal_toNat, zero]
  apply or_congr_right
  apply or_congr_right
  by_cases small : length.toNat + 15 < 2 ^ 64
  · rw [if_pos small]
    omega
  · rw [if_neg small]
    omega

/-- A header read from a dead link, a mapping of 4096 bytes and an image of as many: the eighth
block is written behind the mapping. -/
theorem block_writes_inside_deadLink :
    ∃ num maxBlk avail ringMapSize length, RingAccepts num maxBlk ringMapSize ∧
      ¬ BlockWritesInside num maxBlk avail ringMapSize length := by
  refine ⟨0xFFFFFFFF, 0xFFFFFFFF, 0xFFFFFFFF, 4096, 4096, ⟨by decide, by decide, by decide⟩, ?_⟩
  rw [blockWritesInside_iff_fit, accepted_blocksFit_iff]
  decide

end AmbaPci

import AmbaPci.RingRules
import AmbaPci.XferFirmware

set_option autoImplicit false

/- Runs in which everything goes well: what the ring functions come to do on a machine that gives
them the replies they wait for. -/
namespace AmbaPci

open ByteMemory (Byte)
open Interaction Interaction.Machine

/-- The machine never stands in the way: it can give any reading while a loop waits, the header's
values while the ring context is set up, and a buffer and its bytes when they are asked for. -/
structure Obliging {σ : Type} (M : Machine Op Op.Reply σ) (num maxBlk avail : BitVec 32) :
    Prop where
  jiffies : ∀ s now, ∃ s', M.answer s .jiffies now s'
  read : ∀ s fn base off value, fn ≠ .ctxInit → ∃ s', M.answer s (.readl fn base off) value s'
  readNum : ∀ s base, ∃ s', M.answer s (.readl .ctxInit base rhNumOff) num s'
  readMaxBlk : ∀ s base, ∃ s', M.answer s (.readl .ctxInit base rhMaxBlkOff) maxBlk s'
  readAvail : ∀ s base, ∃ s', M.answer s (.readl .ctxInit base rhAvailOff) avail s'
  write : ∀ s fn base off value, ∃ s', M.answer s (.writel fn base off value) () s'
  block : ∀ s fn base off bytes, ∃ s', M.answer s (.memcpyToio fn base off bytes) () s'
  alloc : ∀ s, ∃ s', M.answer s (.kmalloc ringBlockSize) true s'
  copy : ∀ s src length, ∃ bytes s', M.answer s (.copyFromUser src length) (some bytes) s'
  master : ∀ s pdev, ∃ s', M.answer s (.pciSetMaster pdev) () s'

/-- `pcie_ring_ctx_init` accepts the header. -/
def RingAccepts (num maxBlk : BitVec 32) (ringMapSize : BitVec 64) : Prop :=
  num ≠ 0 ∧ maxBlk ≠ 0 ∧ pcieRingMapTooSmall maxBlk ringMapSize = false

/-- The context while chunk `chunk` is next: only its counters have moved. -/
structure RingAt (num maxBlk : BitVec 32) (base : Mapping) (chunk : Nat) (ring : PcieRingCtx) :
    Prop where
  base : ring.base = base
  num : ring.num = num
  maxBlk : ring.maxBlk = maxBlk
  curBlk : ring.curBlk = BitVec.ofNat 32 chunk

theorem RingAt.next {num maxBlk : BitVec 32} {base : Mapping} {chunk : Nat} {ring : PcieRingCtx}
    (at' : RingAt num maxBlk base chunk ring) :
    RingAt num maxBlk base (chunk + 1) ring.posted where
  base := at'.base
  num := at'.num
  maxBlk := at'.maxBlk
  curBlk := by
    show ring.curBlk + 1 = _
    rw [at'.curBlk]
    exact (BitVec.ofNat_add chunk 1).symm

/-- Polling loops sample once, and the clock stands still. -/
def onePoll : Timing := ⟨1000, 1⟩

theorem onePoll_early : timeBefore (0 : BitVec 64) (0 + onePoll.msecsToJiffies 5000) = true := by
  decide

variable {σ : Type} {M : Machine Op Op.Reply σ} {num maxBlk avail : BitVec 32}

theorem pcieRingWaitU32_canReturn (obliging : Obliging M num maxBlk avail) (base : Mapping)
    (off : Nat) {want val : BitVec 32} {equal : Bool}
    (awaited : if equal then val = want else val ≠ want) (s : σ) :
    M.CanReturn (fun ret _ => ret = 0) (pcieRingWaitU32 onePoll base off want equal 5000) s := by
  obtain ⟨s₁, clock⟩ := obliging.jiffies s 0
  refine canReturn_perform (0 : BitVec 64) clock ?_
  obtain ⟨s₂, clock⟩ := obliging.jiffies s₁ 0
  refine canReturn_perform (0 : BitVec 64) clock ?_
  rw [if_pos onePoll_early]
  obtain ⟨s₃, sample⟩ := obliging.read s₂ .waitU32 base off val (by decide)
  refine canReturn_perform val sample ?_
  rw [if_pos awaited]
  exact canReturn_done rfl

/-- A machine that answers without moving lets the wait end at its first sample. -/
theorem pcieRingWaitU32_still (base : Mapping) (off : Nat) {want val : BitVec 32} {equal : Bool}
    (awaited : if equal then val = want else val ≠ want) {s : σ}
    (clock : M.answer s .jiffies (0 : BitVec 64) s)
    (sample : M.answer s (.readl .waitU32 base off) val s) :
    M.CanReturn (fun ret s' => ret = 0 ∧ s' = s)
      (pcieRingWaitU32 onePoll base off want equal 5000) s := by
  refine canReturn_perform (0 : BitVec 64) clock (canReturn_perform (0 : BitVec 64) clock ?_)
  rw [if_pos onePoll_early]
  refine canReturn_perform val sample ?_
  rw [if_pos awaited]
  exact canReturn_done ⟨rfl, rfl⟩

/-- A reading other than the one a loop wants to leave. -/
theorem differs (want : BitVec 32) :
    if false = true then want + 1 = want else want + 1 ≠ want := by
  rw [if_neg (by decide)]
  intro same
  have values := congrArg BitVec.toNat same
  have bound := want.isLt
  have one : (1 : BitVec 32).toNat = 1 := rfl
  rw [BitVec.toNat_add, one] at values
  omega

theorem pcieRingXferPoll_canReturn (obliging : Obliging M num maxBlk avail) (base : Mapping)
    (s : σ) : M.CanReturn (fun ret _ => ret = 0) (pcieRingXferPoll onePoll base 5000) s := by
  obtain ⟨s₁, clock⟩ := obliging.jiffies s 0
  refine canReturn_perform (0 : BitVec 64) clock ?_
  obtain ⟨s₂, clock⟩ := obliging.jiffies s₁ 0
  refine canReturn_perform (0 : BitVec 64) clock ?_
  rw [if_pos onePoll_early]
  obtain ⟨s₃, used⟩ := obliging.read s₂ .xferPoll base rhUsedOff 0 (by decide)
  refine canReturn_perform (0 : BitVec 32) used ?_
  obtain ⟨s₄, num⟩ := obliging.read s₃ .xferPoll base rhNumOff 0 (by decide)
  refine canReturn_perform (0 : BitVec 32) num ?_
  obtain ⟨s₅, avail⟩ := obliging.read s₄ .xferPoll base rhAvailOff 0 (by decide)
  refine canReturn_perform (0 : BitVec 32) avail ?_
  rw [if_pos (by decide)]
  exact canReturn_done rfl

theorem pcieRingW32_canReturn (obliging : Obliging M num maxBlk avail) {α : Type}
    {post : α → σ → Prop} {fn : RingFn} {base : Mapping} {off : Nat} {value : BitVec 32}
    {next : Unit → Host α} (rest : ∀ s, M.CanReturn post (next ()) s) (s : σ) :
    M.CanReturn post (pcieRingW32 fn base off value >>= next) s := by
  obtain ⟨s', written⟩ := obliging.write s fn base off value
  exact canReturn_perform () written (rest s')

theorem pcieRingW32_canCall (obliging : Obliging M num maxBlk avail) {α : Type}
    {wanted : σ → Op → Prop} {fn : RingFn} {base : Mapping} {off : Nat} {value : BitVec 32}
    {next : Unit → Host α} (rest : ∀ s, M.CanCall wanted (next ()) s) (s : σ) :
    M.CanCall wanted (pcieRingW32 fn base off value >>= next) s := by
  obtain ⟨s', written⟩ := obliging.write s fn base off value
  exact canCall_perform () written (rest s')

theorem pcieRingPostData_canReturn (obliging : Obliging M num maxBlk avail) (ring : PcieRingCtx)
    (bytes : List Byte) (csz : BitVec 32) (epAddr : BitVec 64) (s : σ) :
    M.CanReturn (fun posted _ => posted = (0, ring.posted))
      (pcieRingPostData onePoll ring bytes csz epAddr) s := by
  apply canReturn_seq (pcieRingWaitU32_canReturn obliging ring.base rhAvailOff
    (differs ring.curAvail) s)
  rintro ret s₁ rfl
  rw [if_neg (by decide)]
  apply pcieRingW32_canReturn obliging; intro s₂
  apply pcieRingW32_canReturn obliging; intro s₃
  apply pcieRingW32_canReturn obliging; intro s₄
  apply pcieRingW32_canReturn obliging; intro s₅
  apply pcieRingW32_canReturn obliging; intro s₆
  obtain ⟨s₇, copied⟩ := obliging.block s₆ .postData ring.base
    (pcieRingDataBlk (ring.curBlk % ring.maxBlk)) bytes
  refine canReturn_perform () copied ?_
  obtain ⟨s₈, used⟩ := obliging.read s₇ .postData ring.base rhUsedOff 0 (by decide)
  refine canReturn_perform (0 : BitVec 32) used ?_
  apply pcieRingW32_canReturn obliging; intro s₉
  exact canReturn_done rfl

/-- The write of one data block. -/
def WritesBlock (base : Mapping) (blk : BitVec 32) (length : Nat) : Op → Prop
  | .memcpyToio fn target off bytes =>
      fn = .postData ∧ target = base ∧ off = pcieRingDataBlk blk ∧ bytes.length = length
  | _ => False

theorem pcieRingPostData_canCall (obliging : Obliging M num maxBlk avail) (ring : PcieRingCtx)
    (bytes : List Byte) (csz : BitVec 32) (epAddr : BitVec 64) (s : σ) :
    M.CanCall (fun _ => WritesBlock ring.base (ring.curBlk % ring.maxBlk) bytes.length)
      (pcieRingPostData onePoll ring bytes csz epAddr) s := by
  apply canCall_seq (pcieRingWaitU32_canReturn obliging ring.base rhAvailOff
    (differs ring.curAvail) s)
  rintro ret s₁ rfl
  rw [if_neg (by decide)]
  apply pcieRingW32_canCall obliging; intro s₂
  apply pcieRingW32_canCall obliging; intro s₃
  apply pcieRingW32_canCall obliging; intro s₄
  apply pcieRingW32_canCall obliging; intro s₅
  apply pcieRingW32_canCall obliging; intro s₆
  exact canCall_here ⟨rfl, rfl, rfl, rfl⟩

theorem pcieRingPostCmd_canReturn (obliging : Obliging M num maxBlk avail) (ring : PcieRingCtx)
    (cmd size : BitVec 32) (addr : BitVec 64) (s : σ) :
    M.CanReturn (fun posted _ => posted.1 = 0) (pcieRingPostCmd onePoll ring cmd size addr) s := by
  apply canReturn_seq (pcieRingWaitU32_canReturn obliging ring.base rhAvailOff
    (differs ring.curAvail) s)
  rintro ret s₁ rfl
  rw [if_neg (by decide)]
  apply pcieRingW32_canReturn obliging; intro s₂
  apply pcieRingW32_canReturn obliging; intro s₃
  apply pcieRingW32_canReturn obliging; intro s₄
  apply pcieRingW32_canReturn obliging; intro s₅
  apply pcieRingW32_canReturn obliging; intro s₆
  obtain ⟨s₇, used⟩ := obliging.read s₆ .postCmd ring.base rhUsedOff 0 (by decide)
  refine canReturn_perform (0 : BitVec 32) used ?_
  apply pcieRingW32_canReturn obliging; intro s₈
  exact canReturn_done rfl

/-- The command comes to write the last word of its descriptor. -/
theorem pcieRingPostCmd_canCall (obliging : Obliging M num maxBlk avail) (ring : PcieRingCtx)
    (cmd size : BitVec 32) (addr : BitVec 64) (s : σ) :
    M.CanCall (fun _ op => op =
        .writel .postCmd ring.base (pcieRingDesc ring.curAvail ring.num + 16) 0)
      (pcieRingPostCmd onePoll ring cmd size addr) s := by
  apply canCall_seq (pcieRingWaitU32_canReturn obliging ring.base rhAvailOff
    (differs ring.curAvail) s)
  rintro ret s₁ rfl
  rw [if_neg (by decide)]
  apply pcieRingW32_canCall obliging; intro s₂
  apply pcieRingW32_canCall obliging; intro s₃
  apply pcieRingW32_canCall obliging; intro s₄
  apply pcieRingW32_canCall obliging; intro s₅
  exact canCall_here rfl

theorem pcieRingFillChunk_canReturn (obliging : Obliging M num maxBlk avail)
    (src dataLen epPos : BitVec 64) (csz : BitVec 32) (s : σ) :
    M.CanReturn (fun filled _ => ∃ bytes, filled = some bytes ∧ bytes.length = csz.toNat)
      (pcieRingFillChunk src dataLen epPos csz) s := by
  unfold pcieRingFillChunk
  split
  · exact canReturn_done ⟨_, rfl, List.length_replicate⟩
  · obtain ⟨bytes, s', copied⟩ := obliging.copy s src (min csz.toNat (dataLen - epPos).toNat)
    refine canReturn_perform (some bytes) copied (canReturn_done ⟨_, rfl, ?_⟩)
    simp only [List.length_append, Vector.length_toList, List.length_replicate]
    omega

theorem ringChunkPass_canReturn (obliging : Obliging M num maxBlk avail)
    (src dataLen loadAddr total epPos : BitVec 64) (ring : PcieRingCtx) (s : σ) :
    M.CanReturn (fun posted _ => posted = (0, ring.posted))
      (ringChunkPass onePoll src dataLen loadAddr total epPos ring) s := by
  apply canReturn_seq (pcieRingFillChunk_canReturn obliging _ dataLen epPos _ s)
  rintro _ s' ⟨bytes, rfl, -⟩
  exact pcieRingPostData_canReturn obliging ring bytes _ _ s'

theorem ringChunkPass_canCall (obliging : Obliging M num maxBlk avail) {base : Mapping}
    (src dataLen loadAddr total : BitVec 64) {chunk : Nat} (inside : chunk < ringChunks total)
    {ring : PcieRingCtx} (at' : RingAt num maxBlk base chunk ring) (s : σ) :
    M.CanCall
      (fun _ => WritesBlock base (BitVec.ofNat 32 chunk % maxBlk) (ringChunkLen total chunk))
      (ringChunkPass onePoll src dataLen loadAddr total (ringPos total chunk) ring) s := by
  apply canCall_seq (pcieRingFillChunk_canReturn obliging _ dataLen _ _ s)
  rintro _ s' ⟨bytes, rfl, size⟩
  have call := pcieRingPostData_canCall obliging ring bytes
    (pcieRingChunkSize total (ringPos total chunk)) (loadAddr + ringPos total chunk) s'
  rw [at'.base, at'.curBlk, at'.maxBlk, size, pcieRingChunkSize_toNat inside] at call
  exact call

/-- The loop runs to its end, with an invariant that the passes can keep: the induction is on the
passes the model gives it. -/
theorem pcieRingXferLoop_completes (inv : Nat → PcieRingCtx → σ → Prop)
    (src dataLen loadAddr total : BitVec 64)
    (pass : ∀ chunk ring s, chunk < ringChunks total → inv chunk ring s →
      M.CanReturn (fun posted s' => posted.1 = 0 ∧ inv (chunk + 1) posted.2 s')
        (ringChunkPass onePoll src dataLen loadAddr total (ringPos total chunk) ring) s)
    (passes : Nat) {chunk : Nat} (enough : ringChunks total < passes + chunk)
    (inside : chunk ≤ ringChunks total) {ring : PcieRingCtx} {s : σ} (holds : inv chunk ring s) :
    M.CanReturn (fun sent s' => sent.1 = 0 ∧ inv (ringChunks total) sent.2 s')
      (pcieRingXferLoop onePoll src dataLen loadAddr total passes ring (ringPos total chunk))
      s := by
  induction passes generalizing chunk ring s with
  | zero => omega
  | succ passes ih =>
      by_cases more : chunk < ringChunks total
      · rw [pcieRingXferLoop_succ _ _ _ _ _ _ more]
        apply canReturn_seq (pass chunk ring s more holds)
        intro posted s' next
        rw [if_neg (by simp [next.1])]
        exact ih (by omega) more next.2
      · have last : chunk = ringChunks total := by omega
        subst last
        rw [pcieRingXferLoop_end _ _ _ _ _ _ (by omega)]
        exact canReturn_done ⟨rfl, holds⟩

theorem pcieRingXferLoop_canReturn (obliging : Obliging M num maxBlk avail)
    (src dataLen loadAddr total : BitVec 64) (passes : Nat) {chunk : Nat}
    (enough : ringChunks total < passes + chunk) (inside : chunk ≤ ringChunks total)
    (ring : PcieRingCtx) (s : σ) :
    M.CanReturn (fun sent _ => sent.1 = 0)
      (pcieRingXferLoop onePoll src dataLen loadAddr total passes ring (ringPos total chunk))
      s := by
  refine canReturn_mono (pcieRingXferLoop_completes (fun _ _ _ => True) src dataLen loadAddr total
    (fun chunk ring s _ _ => ?_) passes enough inside trivial) fun _ _ zero => zero.1
  have posted := ringChunkPass_canReturn obliging src dataLen loadAddr total (ringPos total chunk)
    ring s
  exact canReturn_mono posted fun _ _ same => ⟨by rw [same], trivial⟩

/-- The loop comes to whatever a pass can come to, with an invariant that the passes can keep. -/
theorem pcieRingXferLoop_reaches {wanted : σ → Op → Prop} (inv : Nat → PcieRingCtx → σ → Prop)
    (src dataLen loadAddr total : BitVec 64) {aim : Nat} (inside : aim < ringChunks total)
    (pass : ∀ chunk ring s, chunk < aim → inv chunk ring s →
      M.CanReturn (fun posted s' => posted.1 = 0 ∧ inv (chunk + 1) posted.2 s')
        (ringChunkPass onePoll src dataLen loadAddr total (ringPos total chunk) ring) s)
    (call : ∀ ring s, inv aim ring s → M.CanCall wanted
      (ringChunkPass onePoll src dataLen loadAddr total (ringPos total aim) ring) s)
    (passes : Nat) {chunk : Nat} (enough : ringChunks total < passes + chunk) (ahead : chunk ≤ aim)
    {ring : PcieRingCtx} {s : σ} (holds : inv chunk ring s) :
    M.CanCall wanted
      (pcieRingXferLoop onePoll src dataLen loadAddr total passes ring (ringPos total chunk))
      s := by
  induction passes generalizing chunk ring s with
  | zero => omega
  | succ passes ih =>
      rw [pcieRingXferLoop_succ _ _ _ _ _ _ (by omega)]
      by_cases here : chunk = aim
      · subst here
        exact canCall_bind (call ring s holds)
      · apply canCall_seq (pass chunk ring s (by omega) holds)
        intro posted s' next
        rw [if_neg (by simp [next.1])]
        exact ih (by omega) (by omega) next.2

theorem pcieRingCtxInit_canReturn (obliging : Obliging M num maxBlk avail)
    {ringMapSize : BitVec 64} (accepted : RingAccepts num maxBlk ringMapSize) (base : Mapping)
    (s : σ) :
    M.CanReturn (fun init _ => init.1 = 0 ∧ RingAt num maxBlk base 0 init.2)
      (pcieRingCtxInit base ringMapSize) s := by
  obtain ⟨nonzeroNum, nonzeroBlk, test⟩ := accepted
  have positive : ¬ (num = 0 ∨ maxBlk = 0) := fun zero => zero.elim nonzeroNum nonzeroBlk
  obtain ⟨s₁, readNum⟩ := obliging.readNum s base
  refine canReturn_perform num readNum ?_
  obtain ⟨s₂, readMaxBlk⟩ := obliging.readMaxBlk s₁ base
  refine canReturn_perform maxBlk readMaxBlk ?_
  rw [if_neg positive, if_neg (by simp [test])]
  obtain ⟨s₃, readAvail⟩ := obliging.readAvail s₂ base
  exact canReturn_perform avail readAvail (canReturn_done ⟨rfl, rfl, rfl, rfl, rfl⟩)

/-- With the header accepted, the transfer of an image can succeed. -/
theorem pcieRingXferUser_canReturn (obliging : Obliging M num maxBlk avail)
    {ringMapSize : BitVec 64} (accepted : RingAccepts num maxBlk ringMapSize) (base : Mapping)
    (userBase : BitVec 64) (img : FwImageDesc) (s : σ) :
    M.CanReturn (fun ret _ => ret = 0)
      (pcieRingXferUser onePoll base ringMapSize userBase img) s := by
  obtain ⟨s₁, allocated⟩ := obliging.alloc s
  refine canReturn_perform true allocated ?_
  rw [if_neg (by decide)]
  apply canReturn_seq (pcieRingCtxInit_canReturn obliging accepted base s₁)
  rintro ⟨ret, ring⟩ s₂ ⟨zero, -⟩
  dsimp only at zero ⊢
  rw [if_neg (by simp [zero]), ← ringPos_zero (pcieRingXferTotal img.length)]
  have sent : M.CanReturn (fun sent _ => sent.1 = 0)
      (pcieRingXferLoop onePoll (userBase + img.offset) img.length (pcieFwLoadAddr img.type)
        (pcieRingXferTotal img.length) (pcieRingPasses (pcieRingXferTotal img.length)) ring
        (ringPos (pcieRingXferTotal img.length) 0)) s₂ := by
    refine pcieRingXferLoop_canReturn obliging _ img.length _ _ _ ?_ (Nat.zero_le _) ring s₂
    exact ringChunks_lt_passes _
  apply canReturn_seq sent
  rintro ⟨ret, ring⟩ s₃ zero
  dsimp only at zero ⊢
  rw [if_neg (by simp [zero])]
  apply canReturn_seq (pcieRingPostCmd_canReturn obliging ring _ _ _ s₃)
  rintro ⟨ret, ring⟩ s₄ zero
  dsimp only at zero ⊢
  rw [if_neg (by simp [zero])]
  exact pcieRingXferPoll_canReturn obliging base s₄

/-- What a pass can come to, the transfer of the image can come to. -/
theorem pcieRingXferUser_reaches {wanted : σ → Op → Prop} (inv : Nat → PcieRingCtx → σ → Prop)
    (base : Mapping) (ringMapSize userBase : BitVec 64) (img : FwImageDesc) {aim : Nat}
    (inside : aim < ringChunks (pcieRingXferTotal img.length)) {s : σ}
    (alloc : ∃ s', M.answer s (.kmalloc ringBlockSize) true s')
    (init : ∀ s', M.answer s (.kmalloc ringBlockSize) true s' →
      M.CanReturn (fun init s'' => init.1 = 0 ∧ inv 0 init.2 s'')
        (pcieRingCtxInit base ringMapSize) s')
    (pass : ∀ chunk ring s, chunk < aim → inv chunk ring s →
      M.CanReturn (fun posted s' => posted.1 = 0 ∧ inv (chunk + 1) posted.2 s')
        (ringChunkPass onePoll (userBase + img.offset) img.length (pcieFwLoadAddr img.type)
          (pcieRingXferTotal img.length) (ringPos (pcieRingXferTotal img.length) chunk) ring) s)
    (call : ∀ ring s, inv aim ring s → M.CanCall wanted
      (ringChunkPass onePoll (userBase + img.offset) img.length (pcieFwLoadAddr img.type)
        (pcieRingXferTotal img.length) (ringPos (pcieRingXferTotal img.length) aim) ring) s) :
    M.CanCall wanted (pcieRingXferUser onePoll base ringMapSize userBase img) s := by
  obtain ⟨s₁, allocated⟩ := alloc
  refine canCall_perform true allocated ?_
  rw [if_neg (by decide)]
  apply canCall_seq (init s₁ allocated)
  rintro ⟨ret, ring⟩ s₂ ⟨zero, start⟩
  dsimp only at zero start ⊢
  rw [if_neg (by simp [zero]), ← ringPos_zero (pcieRingXferTotal img.length)]
  apply canCall_bind
  refine pcieRingXferLoop_reaches inv _ img.length _ _ inside pass call _ ?_ (Nat.zero_le _) start
  exact ringChunks_lt_passes _

/-- The transfer of the image can come to whatever its closing command can come to. -/
theorem pcieRingXferUser_reachesCmd {wanted : σ → Op → Prop} (inv : Nat → PcieRingCtx → σ → Prop)
    (base : Mapping) (ringMapSize userBase : BitVec 64) (img : FwImageDesc) {s : σ}
    (alloc : ∃ s', M.answer s (.kmalloc ringBlockSize) true s')
    (init : ∀ s', M.answer s (.kmalloc ringBlockSize) true s' →
      M.CanReturn (fun init s'' => init.1 = 0 ∧ inv 0 init.2 s'')
        (pcieRingCtxInit base ringMapSize) s')
    (pass : ∀ chunk ring s, chunk < ringChunks (pcieRingXferTotal img.length) → inv chunk ring s →
      M.CanReturn (fun posted s' => posted.1 = 0 ∧ inv (chunk + 1) posted.2 s')
        (ringChunkPass onePoll (userBase + img.offset) img.length (pcieFwLoadAddr img.type)
          (pcieRingXferTotal img.length) (ringPos (pcieRingXferTotal img.length) chunk) ring) s)
    (call : ∀ ring s, inv (ringChunks (pcieRingXferTotal img.length)) ring s →
      M.CanCall wanted (pcieRingPostCmd onePoll ring (pcieRingTail img.type img.length).1
        (pcieRingTail img.type img.length).2 (pcieFwLoadAddr img.type)) s) :
    M.CanCall wanted (pcieRingXferUser onePoll base ringMapSize userBase img) s := by
  obtain ⟨s₁, allocated⟩ := alloc
  refine canCall_perform true allocated ?_
  rw [if_neg (by decide)]
  apply canCall_seq (init s₁ allocated)
  rintro ⟨ret, ring⟩ s₂ ⟨zero, start⟩
  dsimp only at zero start ⊢
  rw [if_neg (by simp [zero]), ← ringPos_zero (pcieRingXferTotal img.length)]
  have enough : ringChunks (pcieRingXferTotal img.length) <
      pcieRingPasses (pcieRingXferTotal img.length) + 0 := ringChunks_lt_passes _
  apply canCall_seq (pcieRingXferLoop_completes inv _ img.length _ _ pass _ enough (Nat.zero_le _)
    start)
  rintro ⟨ret, ring⟩ s₃ ⟨zero, here⟩
  dsimp only at zero here ⊢
  rw [if_neg (by simp [zero])]
  exact canCall_bind (call ring s₃ here)

/-- With the header accepted, the transfer comes to write every block of its image. -/
theorem pcieRingXferUser_canCall (obliging : Obliging M num maxBlk avail)
    {ringMapSize : BitVec 64} (accepted : RingAccepts num maxBlk ringMapSize) (base : Mapping)
    (userBase : BitVec 64) (img : FwImageDesc) {chunk : Nat}
    (inside : chunk < ringChunks (pcieRingXferTotal img.length)) (s : σ) :
    M.CanCall (fun _ => WritesBlock base (BitVec.ofNat 32 chunk % maxBlk)
        (ringChunkLen (pcieRingXferTotal img.length) chunk))
      (pcieRingXferUser onePoll base ringMapSize userBase img) s := by
  refine pcieRingXferUser_reaches (fun chunk ring _ => RingAt num maxBlk base chunk ring)
    base ringMapSize userBase img inside (obliging.alloc s) ?_ ?_ ?_
  · intro s' _
    exact pcieRingCtxInit_canReturn obliging accepted base s'
  · intro chunk ring s' _ at'
    apply canReturn_mono (ringChunkPass_canReturn obliging _ img.length _ _ _ ring s')
    rintro _ _ rfl
    exact ⟨rfl, at'.next⟩
  · intro ring s' at'
    exact ringChunkPass_canCall obliging _ img.length _ _ inside at' s'

theorem pcieRingWaitEpReady_canReturn (obliging : Obliging M num maxBlk avail) (base : Mapping)
    (s : σ) : M.CanReturn (fun ret _ => ret = 0) (pcieRingWaitEpReady onePoll base) s := by
  have magic : if true = true then ringMagic = ringMagic else ringMagic ≠ ringMagic := rfl
  have online : if true = true then ringStateOnline = ringStateOnline
      else ringStateOnline ≠ ringStateOnline := rfl
  apply canReturn_seq (pcieRingWaitU32_canReturn obliging base rhMagicOff magic s)
  intro ret s' zero
  rw [if_neg (by simp [zero])]
  exact pcieRingWaitU32_canReturn obliging base rhStateOff online s'

theorem xferImages_canReturn (obliging : Obliging M num maxBlk avail) {ringMapSize : BitVec 64}
    (accepted : RingAccepts num maxBlk ringMapSize) (base : Mapping) (req : FwXfer)
    (types : List (BitVec 32)) (found : ∀ type ∈ types, (pcieFwFindImage req type).isSome = true)
    (s : σ) :
    M.CanReturn (fun ret _ => ret = 0) (xferImages onePoll base ringMapSize req types) s := by
  induction types generalizing s with
  | nil => exact canReturn_done rfl
  | cons type rest ih =>
      obtain ⟨img, here⟩ := Option.isSome_iff_exists.mp (found type List.mem_cons_self)
      unfold xferImages
      rw [here]
      apply canReturn_seq (pcieRingXferUser_canReturn obliging accepted base req.fwUserPtr img s)
      intro ret s' zero
      rw [if_neg (by simp [zero])]
      exact ih (fun type later => found type (List.mem_cons_of_mem _ later)) s'

theorem xferToEp_canReturn (obliging : Obliging M num maxBlk avail) {ringMapSize : BitVec 64}
    (accepted : RingAccepts num maxBlk ringMapSize) (base : Mapping) (req : FwXfer)
    (found : ∀ type ∈ pcieFwXferOrder, (pcieFwFindImage req type).isSome = true) (s : σ) :
    M.CanReturn (fun ret _ => ret = 0) (xferToEp onePoll base ringMapSize req) s := by
  apply canReturn_seq (pcieRingWaitEpReady_canReturn obliging base s)
  intro ret s' zero
  rw [if_neg (by simp [zero])]
  exact xferImages_canReturn obliging accepted base req pcieFwXferOrder found s'

/-- An entry whose card is mapped and known, and waits for its firmware. -/
structure ReadyForXfer (e : Entry) (pdev : PciDev) (base : Mapping) : Prop where
  inUse : e.inUse = true
  state : e.state = .disconnected
  pdev : e.pdev = some pdev
  bootMemBase : e.bootMemBase = some base
  boardInfoIsUpdated : e.boardInfoIsUpdated = true

/-- A boot ROM on bus 1 with its BAR mapped. -/
def readyEntry : Entry where
  pdev := some ⟨0, 0, 1, 0, ambaPciTargetVendorId, ambaPciTargetDeviceId, 0,
    Vector.replicate 6 ⟨true, 0x100000⟩⟩
  inUse := true
  bootMemBase := some 0
  bootLen := 0x100000
  boardInfoIsUpdated := true

theorem ReadyForXfer.refresh {e : Entry} {pdev : PciDev} {base : Mapping}
    (ready : ReadyForXfer e pdev base) : pcieDevRefreshBoardInfoLocked e = pure (0, e) := by
  have mapped : refreshBootMapping pdev e = pure (0, e) := by
    unfold refreshBootMapping
    rw [if_neg (by simp [ready.bootMemBase])]
  unfold pcieDevRefreshBoardInfoLocked
  rw [if_neg (by simp [ready.state]), ready.pdev]
  dsimp only
  rw [mapped]
  dsimp only [Prog.pure_eq_done, Prog.done_bind]
  rw [if_neg (by simp), ready.boardInfoIsUpdated, ready.bootMemBase]

/-- On such an entry, an accepted request for the three images can succeed. -/
theorem pcieIoctlXferFirmware_canReturn (obliging : Obliging M num maxBlk avail) {e : Entry}
    {pdev : PciDev} {base : Mapping} (ready : ReadyForXfer e pdev base)
    (accepted : RingAccepts num maxBlk e.bootLen) {req : FwXfer} (valid : fwXferAccepted req = true)
    (found : ∀ type ∈ pcieFwXferOrder, (pcieFwFindImage req type).isSome = true) (s : σ) :
    M.CanReturn (fun result _ => result.1 = 0) (pcieIoctlXferFirmware onePoll req e) s := by
  unfold pcieIoctlXferFirmware pcieXferFirmwareLocked
  rw [if_pos valid, if_neg (by simp [ready.inUse]), if_neg (by simp [ready.state]), ready.refresh]
  dsimp only [Prog.pure_eq_done, Prog.done_bind]
  rw [if_neg (by simp), ready.pdev, ready.bootMemBase]
  obtain ⟨s₁, master⟩ := obliging.master s pdev
  refine canReturn_perform () master ?_
  apply canReturn_seq (xferToEp_canReturn obliging accepted base req found s₁)
  intro ret s₂ zero
  rw [if_neg (by simp [zero])]
  exact canReturn_done rfl

end AmbaPci

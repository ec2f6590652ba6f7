import AmbaPci.RingQueue

set_option autoImplicit false

/- `pcie_ring_xfer_user` on the ring that the endpoint consumes: one image arrives whole. -/
namespace AmbaPci

open ByteMemory
open Interaction Interaction.Machine

variable {user : BitVec 64 → Byte} {num maxBlk origin : BitVec 32} {ringMapSize : BitVec 64}
  {log posts : List EpAction}

/-- The endpoint writes nothing but `avail`. -/
theorem EpStep.spares {s s' : RingWorld} (step : EpStep s s') (cell : Nat) (high : 80 ≤ cell) :
    s'.bar cell = s.bar cell := by
  cases step with
  | fetch _ _ => rfl
  | execute _ _ => rfl
  | advance _ =>
      apply store32_outside
      unfold rhAvailOff
      omega

/-- The posts are queued, wherever the endpoint is with them. -/
def RingQueued (num maxBlk origin : BitVec 32) (log posts : List EpAction) (s : RingWorld) : Prop :=
  ∃ consumed, RingQueue num maxBlk origin log posts consumed s

section Stable

variable (header : RingHeader num maxBlk ringMapSize)
include header

theorem RingQueued.epStep {s s' : RingWorld} (queued : RingQueued num maxBlk origin log posts s)
    (step : EpStep s s') : RingQueued num maxBlk origin log posts s' := by
  obtain ⟨consumed, queue⟩ := queued
  obtain ⟨later, -, queue'⟩ := queue.epStep header step
  exact ⟨later, queue'⟩

theorem ringQueued_stable :
    (ringMachine user).Stable (RingQueued num maxBlk origin log posts) :=
  fun _ _ queued step => queued.epStep header step

theorem ringRoom_stable : (ringMachine user).Stable (RingRoom num maxBlk origin log posts) :=
  fun _ _ room step => room.epStep header step

/-- The next slot and block may be prepared while the endpoint goes on: it writes neither. -/
theorem prepared_stable (condition : Memory → Prop)
    (local' : ∀ bar bar', (∀ cell, 80 ≤ cell → bar' cell = bar cell) → condition bar →
      condition bar') :
    (ringMachine user).Stable fun s =>
      RingRoom num maxBlk origin log posts s ∧ condition s.bar := by
  intro s s' prepared step
  obtain ⟨room, holds⟩ := prepared
  exact ⟨room.epStep header step, local' s.bar s'.bar step.spares holds⟩

end Stable

theorem ringMachine_quiet {s s' : RingWorld} {op : Op} {reply : op.Reply}
    (answered : (ringMachine user).answer s op reply s') (quiet : op.Quiet) : s' = s := by
  cases op with
  | readl fn base off => exact answered.2
  | writel fn base off value => exact absurd quiet id
  | memcpyToio fn base off bytes => exact absurd quiet id
  | copyFromUser src length => exact absurd quiet id
  | _ => exact answered

theorem ringMachine_idles {before : RingWorld → Prop} (stable : (ringMachine user).Stable before) :
    Idles (ringMachine user) unguarded before where
  stable := stable
  jiffiesReady _ _ := trivial
  jiffies _ _ _ here clock := by rwa [ringMachine_quiet clock trivial]
  sleepReady _ _ := trivial
  sleep _ _ _ here slept := by rwa [ringMachine_quiet slept trivial]
  spinReady _ _ := trivial

/-! One post -/

section Post

variable (header : RingHeader num maxBlk ringMapSize)
include header

/-- The wait for a free slot. -/
theorem pcieRingWaitU32_room (t : Timing) (base : Mapping) {s : RingWorld}
    (holds : RingQueued num maxBlk origin log posts s) :
    (ringMachine user).wp unguarded
      (fun ret s' => ret = 0 → RingRoom num maxBlk origin log posts s')
      (pcieRingWaitU32 t base rhAvailOff (ringIndex origin posts.length) false 5000) s := by
  apply wp_mono (pcieRingWaitU32_wp (ringMachine_idles (ringQueued_stable header))
    (ringRoom_stable header) t base rhAvailOff (ringIndex origin posts.length) false 5000
    (fun _ _ => trivial) (fun s val s' queued read awaited => ?_)
    (fun s val s' queued read _ => by rwa [read.2]) holds)
  · intro ret s' result zero
    rcases nonzero_of_timeout result with ⟨-, room⟩ | ⟨failed, -⟩
    · exact room
    · exact absurd zero failed
  · obtain ⟨value, same⟩ := read
    obtain ⟨consumed, queue⟩ := queued
    subst same
    refine ⟨consumed, queue, ?_⟩
    have few := queue.few
    have apart : posts.length ≠ consumed + num.toNat := by
      intro full
      have register : load32 s'.bar rhAvailOff = _ := queue.availReg
      rw [if_neg (by decide), value, register] at awaited
      apply awaited
      rw [full]
      unfold ringIndex
      rw [BitVec.ofNat_add, BitVec.ofNat_toNat, BitVec.setWidth_eq, BitVec.add_assoc]
    omega

/-- The words written into the next slot so far. -/
def SlotDraft (num maxBlk origin : BitVec 32) (log posts : List EpAction)
    (words : List (BitVec 32)) (s : RingWorld) : Prop :=
  RingRoom num maxBlk origin log posts s ∧
    WordsAt s.bar (pcieRingDesc (ringIndex origin posts.length) num) words

theorem slotDraft_stable {words : List (BitVec 32)} :
    (ringMachine user).Stable (SlotDraft num maxBlk origin log posts words) :=
  prepared_stable header
    (fun bar => WordsAt bar (pcieRingDesc (ringIndex origin posts.length) num) words)
    fun _ _ same held => held.congr fun cell low => by
      have slot := (header.slot_inside origin posts.length).1
      exact same cell (by omega)

theorem SlotDraft.write {words : List (BitVec 32)} (small : posts.length < 2 ^ 32)
    (space : words.length < 5) {s : RingWorld}
    (draft : SlotDraft num maxBlk origin log posts words s) (value : BitVec 32) :
    SlotDraft num maxBlk origin log posts (words ++ [value])
      { s with
        bar := store32 s.bar
          (pcieRingDesc (ringIndex origin posts.length) num + 4 * words.length) value } := by
  obtain ⟨room, written⟩ := draft
  refine ⟨room.write header small fun cell slot _ => ?_, written.snoc value⟩
  apply store32_outside
  omega

theorem pcieRingW32_draft {α : Type} {post : α → RingWorld → Prop} {fn : RingFn} {base : Mapping}
    {words : List (BitVec 32)} {value : BitVec 32} {next : Unit → Host α} {s : RingWorld}
    (small : posts.length < 2 ^ 32) (space : words.length < 5)
    (draft : SlotDraft num maxBlk origin log posts words s)
    (rest : ∀ s', SlotDraft num maxBlk origin log posts (words ++ [value]) s' →
      (ringMachine user).wp unguarded post (next ()) s') :
    (ringMachine user).wp unguarded post
      (pcieRingW32 fn base (pcieRingDesc (ringIndex origin posts.length) num + 4 * words.length)
        value >>= next) s := by
  apply wp_perform (slotDraft_stable header) draft (fun _ _ => trivial)
  intro s₁ _ s₂ draft₁ written
  have there : s₂ = _ := written
  rw [there]
  exact rest _ (draft₁.write header small space value)

/-- The next slot holds a descriptor. -/
def SlotHolds (num maxBlk origin : BitVec 32) (log posts : List EpAction) (desc : EpDesc)
    (s : RingWorld) : Prop :=
  RingRoom num maxBlk origin log posts s ∧
    loadDesc s.bar (pcieRingDesc (ringIndex origin posts.length) num) = desc

theorem SlotHolds.epStep {desc : EpDesc} {s s' : RingWorld}
    (slot : SlotHolds num maxBlk origin log posts desc s) (step : EpStep s s') :
    SlotHolds num maxBlk origin log posts desc s' := by
  have inside := (header.slot_inside origin posts.length).1
  refine ⟨slot.1.epStep header step, ?_⟩
  rw [← slot.2]
  exact loadDesc_congr fun cell low _ => step.spares cell (by omega)

theorem slotHolds_stable {desc : EpDesc} :
    (ringMachine user).Stable (SlotHolds num maxBlk origin log posts desc) :=
  fun _ _ slot step => slot.epStep header step

/-- The five words of a descriptor, written in order. -/
theorem descriptor_draft {α : Type} {post : α → RingWorld → Prop} {fn : RingFn} {base : Mapping}
    (small : posts.length < 2 ^ 32) (desc : EpDesc) {rest : Host α} {s : RingWorld}
    (room : RingRoom num maxBlk origin log posts s)
    (after : ∀ s', SlotHolds num maxBlk origin log posts desc s' →
      (ringMachine user).wp unguarded post rest s') :
    (ringMachine user).wp unguarded post
      (do
        pcieRingW32 fn base (pcieRingDesc (ringIndex origin posts.length) num + 0) desc.cmd
        pcieRingW32 fn base (pcieRingDesc (ringIndex origin posts.length) num + 4) desc.size
        pcieRingW32 fn base (pcieRingDesc (ringIndex origin posts.length) num + 8) desc.addrLo
        pcieRingW32 fn base (pcieRingDesc (ringIndex origin posts.length) num + 12) desc.addrHi
        pcieRingW32 fn base (pcieRingDesc (ringIndex origin posts.length) num + 16) desc.blkid
        rest) s := by
  have empty : SlotDraft num maxBlk origin log posts [] s := ⟨room, nofun⟩
  apply pcieRingW32_draft header small (by decide) empty; intro s₁ one
  apply pcieRingW32_draft header small (by exact (by decide : 1 < 5)) one; intro s₂ two
  apply pcieRingW32_draft header small (by exact (by decide : 2 < 5)) two; intro s₃ three
  apply pcieRingW32_draft header small (by exact (by decide : 3 < 5)) three; intro s₄ four
  apply pcieRingW32_draft header small (by exact (by decide : 4 < 5)) four; intro s₅ five
  obtain ⟨room', words⟩ := five
  apply after
  refine ⟨room', ?_⟩
  unfold loadDesc
  have cmd : load32 s₅.bar (pcieRingDesc (ringIndex origin posts.length) num) = desc.cmd :=
    words 0 (by exact (by decide : 0 < 5))
  have size : load32 s₅.bar (pcieRingDesc (ringIndex origin posts.length) num + 4) = desc.size :=
    words 1 (by exact (by decide : 1 < 5))
  have addrLo : load32 s₅.bar (pcieRingDesc (ringIndex origin posts.length) num + 8) =
      desc.addrLo := words 2 (by exact (by decide : 2 < 5))
  have addrHi : load32 s₅.bar (pcieRingDesc (ringIndex origin posts.length) num + 12) =
      desc.addrHi := words 3 (by exact (by decide : 3 < 5))
  have blkid : load32 s₅.bar (pcieRingDesc (ringIndex origin posts.length) num + 16) =
      desc.blkid := words 4 (by exact (by decide : 4 < 5))
  rw [cmd, size, addrLo, addrHi, blkid]

/-- The block of the next post. -/
abbrev nextBlock (maxBlk : BitVec 32) (posts : List EpAction) : BitVec 32 :=
  BitVec.ofNat 32 posts.length % maxBlk

/-- The bytes of the block, copied in order while the endpoint may go on. -/
theorem CopyToio.holds (small : posts.length < 2 ^ 32) {desc : EpDesc} {off : Nat}
    {bytes : List Byte} {s s' : RingWorld} (copied : CopyToio off bytes s s') (before : List Byte)
    (start : off = pcieRingDataBlk (nextBlock maxBlk posts) + before.length)
    (fits : before.length + bytes.length ≤ ringBlockSize)
    (slot : SlotHolds num maxBlk origin log posts desc s)
    (held : loadBytes s.bar (pcieRingDataBlk (nextBlock maxBlk posts)) before.length = before) :
    SlotHolds num maxBlk origin log posts desc s' ∧
      loadBytes s'.bar (pcieRingDataBlk (nextBlock maxBlk posts)) (before ++ bytes).length =
        before ++ bytes := by
  have positive : 0 < maxBlk.toNat := Nat.lt_of_lt_of_le header.positive header.atMost
  have block : 512 ≤ pcieRingDataBlk (nextBlock maxBlk posts) := dataBlk_ge maxBlk _ positive
  have inside := header.slot_inside origin posts.length
  induction copied generalizing before with
  | done off s =>
      rw [List.append_nil]
      exact ⟨slot, held⟩
  | store off byte rest s s' later ih =>
      subst start
      rw [List.length_cons] at fits
      have shift : pcieRingDataBlk (nextBlock maxBlk posts) + before.length + 1 =
          pcieRingDataBlk (nextBlock maxBlk posts) + (before ++ [byte]).length := by
        rw [List.length_append, List.length_singleton]
        omega
      have kept : ∀ cell, (cell < pcieRingDataBlk (nextBlock maxBlk posts) ∨
          pcieRingDataBlk (nextBlock maxBlk posts) + ringBlockSize ≤ cell) →
          storeBytes s.bar (pcieRingDataBlk (nextBlock maxBlk posts) + before.length) [byte] cell =
            s.bar cell := by
        intro cell outside
        apply storeBytes_outside
        rw [List.length_singleton]
        omega
      rw [List.append_cons]
      apply ih (before ++ [byte]) shift
      · rw [List.length_append, List.length_singleton]
        omega
      · refine ⟨slot.1.write header small fun cell _ outside => kept cell outside, ?_⟩
        rw [← slot.2]
        exact loadDesc_congr fun cell _ low => kept cell (by omega)
      · rw [List.length_append, loadBytes_append]
        congr 1
        · rw [loadBytes_storeBytes_apart _ _ _ _ _ (by unfold Apart; omega)]
          exact held
        · exact loadBytes_storeBytes_same _ _ _
  | interfere off bytes s s₁ s' moved later ih =>
      apply ih before start fits
      · exact slot.epStep header moved
      · refine Eq.trans (loadBytes_congr ?_) held
        intro index _
        exact moved.spares _ (by omega)

/-- Slot and block are ready for the write to `used`. -/
def SlotReady (num maxBlk origin : BitVec 32) (log posts : List EpAction) (action : EpAction)
    (s : RingWorld) : Prop :=
  RingRoom num maxBlk origin log posts s ∧
    InFlight s.bar (pcieRingDesc (ringIndex origin posts.length) num) (nextBlock maxBlk posts)
      action

theorem slotReady_stable {action : EpAction} :
    (ringMachine user).Stable (SlotReady num maxBlk origin log posts action) :=
  prepared_stable header
    (fun bar => InFlight bar (pcieRingDesc (ringIndex origin posts.length) num)
      (nextBlock maxBlk posts) action)
    fun _ _ same flight => by
      have positive : 0 < maxBlk.toNat := Nat.lt_of_lt_of_le header.positive header.atMost
      have slot := (header.slot_inside origin posts.length).1
      have block : 512 ≤ pcieRingDataBlk (nextBlock maxBlk posts) := dataBlk_ge maxBlk _ positive
      exact flight.frame (fun cell low _ => same cell (by omega))
        fun cell low _ => same cell (by omega)

/-- The read of `used` and the write that publishes. -/
theorem publish_queue {α : Type} {post : α → RingWorld → Prop} {fn : RingFn} {base : Mapping}
    {value : α} {action : EpAction} {s : RingWorld}
    (ready : SlotReady num maxBlk origin log posts action s)
    (after : ∀ s', RingQueued num maxBlk origin log (posts ++ [action]) s' → post value s') :
    (ringMachine user).wp unguarded post
      (do
        let used ← pcieRingR32 fn base rhUsedOff
        pcieRingW32 fn base rhUsedOff (used + 1)
        pure value) s := by
  apply wp_perform (slotReady_stable header) ready (fun _ _ => trivial)
  intro s₁ used s₂ ready₁ read
  obtain ⟨read, same⟩ := read
  subst same
  have position : used = ringIndex origin posts.length := by
    obtain ⟨⟨consumed, queue, -⟩, -⟩ := ready₁
    exact read.trans queue.usedReg
  apply wp_perform (slotReady_stable header) ready₁ (fun _ _ => trivial)
  intro s₃ _ s₄ ready₃ written
  obtain ⟨⟨consumed, queue, few⟩, flight⟩ := ready₃
  have there : s₄ = _ := written
  rw [there, position]
  exact wp_done (ringQueued_stable header) ⟨consumed, queue.publish header few flight⟩ after

/-- The context while so many posts have been made. -/
structure CtxAt (num maxBlk origin : BitVec 32) (count : Nat) (ring : PcieRingCtx) : Prop where
  num : ring.num = num
  maxBlk : ring.maxBlk = maxBlk
  curAvail : ring.curAvail = ringIndex origin count
  curBlk : ring.curBlk = BitVec.ofNat 32 count

theorem pcieRingPostData_queue (t : Timing) {ring : PcieRingCtx} {bytes : List Byte}
    {csz : BitVec 32} (epAddr : BitVec 64) (small : posts.length < 2 ^ 32)
    (size : bytes.length = csz.toNat) (short : bytes.length ≤ ringBlockSize)
    (at' : CtxAt num maxBlk origin posts.length ring) {s : RingWorld}
    (holds : RingQueued num maxBlk origin log posts s) :
    (ringMachine user).wp unguarded (fun posted s' => posted.1 = 0 →
        CtxAt num maxBlk origin (posts.length + 1) posted.2 ∧
          RingQueued num maxBlk origin log (posts ++ [.write epAddr bytes]) s')
      (pcieRingPostData t ring bytes csz epAddr) s := by
  have words : csz = BitVec.ofNat 32 bytes.length := by
    rw [size, BitVec.ofNat_toNat, BitVec.setWidth_eq]
  unfold pcieRingPostData
  rw [at'.curAvail, at'.curBlk, at'.num, at'.maxBlk, words]
  apply wp_seq (pcieRingWaitU32_room header t ring.base holds)
  intro ret s₁ room
  split
  · rename_i failed
    exact fun _ _ zero => absurd zero failed
  · rename_i zero
    apply descriptor_draft header small
      (EpAction.desc (nextBlock maxBlk posts) (.write epAddr bytes))
      (room (Decidable.not_not.mp zero))
    intro s₂ slot
    apply wp_perform (slotHolds_stable header) slot (fun _ _ => trivial)
    intro s₃ _ s₄ slot₃ copied
    have fits : ([] : List Byte).length + bytes.length ≤ ringBlockSize := by
      rw [List.length_nil, Nat.zero_add]
      exact short
    obtain ⟨slot₄, held⟩ := CopyToio.holds header small copied [] (Nat.add_zero _).symm fits slot₃
      rfl
    apply publish_queue header ⟨slot₄.1, slot₄.2, short, held⟩
    intro s' queued _
    refine ⟨⟨rfl, rfl, ?_, ?_⟩, queued⟩
    · exact ringIndex_succ origin posts.length
    · exact (BitVec.ofNat_add posts.length 1).symm

theorem pcieRingPostCmd_queue (t : Timing) {ring : PcieRingCtx} (cmd size : BitVec 32)
    (addr : BitVec 64) (small : posts.length < 2 ^ 32) (other : cmd ≠ ringCmdData)
    (at' : CtxAt num maxBlk origin posts.length ring) {s : RingWorld}
    (holds : RingQueued num maxBlk origin log posts s) :
    (ringMachine user).wp unguarded (fun posted s' => posted.1 = 0 →
        RingQueued num maxBlk origin log (posts ++ [.command cmd size addr]) s')
      (pcieRingPostCmd t ring cmd size addr) s := by
  unfold pcieRingPostCmd
  rw [at'.curAvail, at'.num]
  apply wp_seq (pcieRingWaitU32_room header t ring.base holds)
  intro ret s₁ room
  split
  · rename_i failed
    exact fun _ _ zero => absurd zero failed
  · rename_i zero
    apply descriptor_draft header small
      (EpAction.desc (nextBlock maxBlk posts) (.command cmd size addr))
      (room (Decidable.not_not.mp zero))
    intro s₂ slot
    apply publish_queue header ⟨slot.1, slot.2, other⟩
    intro s' queued _
    exact queued

end Post

/-! A whole image -/

theorem IdleRing.queue {s : RingWorld} (idle : IdleRing num maxBlk log s) :
    RingQueue num maxBlk s.used log [] 0 s where
  some := Nat.le_refl _
  few := Nat.zero_le _
  usedReg := (ringIndex_zero s.used).symm
  availReg := by rw [← idle.idle, idle.num, ringIndex_zero]
  numReg := idle.num
  maxBlkReg := idle.maxBlk
  flight index _ inside := absurd inside (Nat.not_lt_zero index)
  phase := by
    rw [idle.phase, List.take_nil, List.append_nil]
    exact idle.log

/-- A ring all of whose posts are consumed is idle. -/
theorem RingQueue.idle {s : RingWorld}
    (queue : RingQueue num maxBlk origin log posts posts.length s) :
    IdleRing num maxBlk (log ++ posts) s := by
  have phase := queue.phase
  have idle : s.used + s.num = s.avail := by rw [queue.usedReg, queue.numReg, queue.availReg]
  cases at' : s.phase with
  | waiting =>
      rw [at', List.take_length] at phase
      exact ⟨queue.numReg, queue.maxBlkReg, idle, at', phase⟩
  | fetched desc =>
      rw [at'] at phase
      exact absurd phase.1 (Nat.lt_irrefl _)
  | executed =>
      rw [at'] at phase
      exact absurd phase.1 (Nat.lt_irrefl _)

theorem idleRing_stable : (ringMachine user).Stable (IdleRing num maxBlk log) := by
  intro s s' idle step
  cases step with
  | fetch waiting published =>
      apply absurd _ published
      rw [← idle.idle, BitVec.add_sub_cancel]
  | execute desc fetched => exact absurd (idle.phase.symm.trans fetched) nofun
  | advance executed => exact absurd (idle.phase.symm.trans executed) nofun

section Image

variable (header : RingHeader num maxBlk ringMapSize)
include header

/-- The transfer goes on, with the posts of its own made since the ring was idle. -/
def TransferQueue (num maxBlk : BitVec 32) (log posts : List EpAction) (ring : PcieRingCtx)
    (s : RingWorld) : Prop :=
  ∃ origin, CtxAt num maxBlk origin posts.length ring ∧
    RingQueued num maxBlk origin log posts s

theorem pcieRingCtxInit_queue (base : Mapping) (size : BitVec 64) {s : RingWorld}
    (holds : IdleRing num maxBlk log s) :
    (ringMachine user).wp unguarded
      (fun init s' => init.1 = 0 → TransferQueue num maxBlk log [] init.2 s')
      (pcieRingCtxInit base size) s := by
  apply wp_perform idleRing_stable holds (fun _ _ => trivial)
  intro s₁ n s₂ idle₁ readNum
  obtain ⟨valueNum, same⟩ := readNum
  subst same
  apply wp_perform idleRing_stable idle₁ (fun _ _ => trivial)
  intro s₃ m s₄ idle₃ readMaxBlk
  obtain ⟨valueMaxBlk, same⟩ := readMaxBlk
  subst same
  have failed : (-einval : Int) ≠ 0 := by decide
  split
  · exact wp_done idleRing_stable idle₃ fun _ _ zero => absurd zero failed
  · split
    · exact wp_done idleRing_stable idle₃ fun _ _ zero => absurd zero failed
    · apply wp_perform idleRing_stable idle₃ (fun _ _ => trivial)
      intro s₅ a s₆ idle₅ readAvail
      obtain ⟨valueAvail, same⟩ := readAvail
      subst same
      have sameNum : n = num := valueNum.trans idle₁.num
      have sameMaxBlk : m = maxBlk := valueMaxBlk.trans idle₃.maxBlk
      have position : a - n = ringIndex s₆.used 0 := by
        rw [valueAvail, show load32 s₆.bar rhAvailOff = s₆.used + s₆.num from idle₅.idle.symm,
          idle₅.num, sameNum, BitVec.add_sub_cancel, ringIndex_zero]
      refine wp_done (ringQueued_stable header) ⟨0, idle₅.queue⟩ fun s' queued _ => ?_
      exact ⟨s₆.used, ⟨sameNum, sameMaxBlk, position, rfl⟩, queued⟩

/-- What `pcie_ring_xfer_poll` reads: `used` and `num` stay, so that an `avail` that matches them
means that everything has been consumed. -/
theorem ringQueued_pollReads (base : Mapping) :
    PollReads (ringMachine user) unguarded base (RingQueued num maxBlk origin log posts)
      (fun u s => u = ringIndex origin posts.length ∧ RingQueued num maxBlk origin log posts s)
      (fun u n s => u = ringIndex origin posts.length ∧ n = num ∧
        RingQueued num maxBlk origin log posts s)
      (IdleRing num maxBlk (log ++ posts)) where
  usedStable _ _ _ here step := ⟨here.1, here.2.epStep header step⟩
  numStable _ _ _ _ here step := ⟨here.1, here.2.1, here.2.2.epStep header step⟩
  settled := idleRing_stable
  usedReady _ _ := trivial
  readUsed s u s' queued read := by
    obtain ⟨value, same⟩ := read
    subst same
    obtain ⟨consumed, queue⟩ := queued
    exact ⟨value.trans queue.usedReg, consumed, queue⟩
  numReady _ _ _ := trivial
  readNum u s n s' here read := by
    obtain ⟨value, same⟩ := read
    subst same
    obtain ⟨position, consumed, queue⟩ := here
    exact ⟨position, value.trans queue.numReg, consumed, queue⟩
  availReady _ _ _ _ := trivial
  idle u n s a s' here read drained := by
    obtain ⟨value, same⟩ := read
    subst same
    obtain ⟨position, sameNum, consumed, queue⟩ := here
    have few := queue.few
    have small := num.isLt
    have counters : ringIndex origin consumed = ringIndex origin posts.length := by
      rw [value, show load32 s'.bar rhAvailOff = _ from queue.availReg, sameNum, position]
        at drained
      have shifted := congrArg (· - num) drained
      simp only [BitVec.add_sub_cancel] at shifted
      exact shifted.symm
    have all := ringIndex_inj counters queue.some (by omega)
    subst all
    exact queue.idle
  busy u n s a s' here read _ := by
    rw [read.2]
    exact here.2.2

/-- The ring keeps track of a transfer of fewer than `2 ^ 32` posts. -/
theorem ring_tracking (t : Timing) (base : Mapping) (size : BitVec 64) (log : List EpAction) :
    PostTracking (ringMachine user) t base size user (2 ^ 32 - 1) (IdleRing num maxBlk log)
      (TransferQueue num maxBlk log) (fun posts s => ∃ origin,
        RingQueued num maxBlk origin log posts s)
      (fun posts => IdleRing num maxBlk (log ++ posts)) where
  startStable := idleRing_stable
  queueStable posts ring s s' here step := by
    obtain ⟨origin, at', queued⟩ := here
    exact ⟨origin, at', queued.epStep header step⟩
  alloc s reply s' here allocated := by rwa [ringMachine_quiet allocated trivial]
  init s here := pcieRingCtxInit_queue header base size here
  copy posts ring s src length reply s' here copied := by
    obtain ⟨same, image⟩ := copied
    rw [same]
    exact ⟨here, image⟩
  data posts ring bytes csz epAddr s few length short here := by
    obtain ⟨origin, at', queued⟩ := here
    apply wp_mono (pcieRingPostData_queue header t epAddr (by omega) length short at' queued)
    intro posted s' next zero
    obtain ⟨at'', queued'⟩ := next zero
    refine ⟨origin, ?_, queued'⟩
    rw [List.length_append, List.length_singleton]
    exact at''
  cmd posts ring cmd size addr s few other here := by
    obtain ⟨origin, at', queued⟩ := here
    apply wp_mono (pcieRingPostCmd_queue header t cmd size addr (by omega) other at' queued)
    intro posted s' next zero
    exact ⟨origin, next zero⟩
  poll posts s here := by
    obtain ⟨origin, queued⟩ := here
    apply wp_mono (pcieRingXferPoll_wp (ringMachine_idles (ringQueued_stable header))
      (ringQueued_pollReads header base) t 5000 queued)
    intro ret s' result zero
    rcases nonzero_of_timeout result with ⟨-, idle⟩ | ⟨failed, -⟩
    · exact idle
    · exact absurd zero failed

end Image

/-- The command that announces the image: its load address, and for the root file system the length
as well. -/
def SetsAddress (img : FwImageDesc) (action : EpAction) : Prop :=
  (img.type = ambaPciFwImageDtb ∧
      action = .command ringCmdSetDtbAddr 0 ambaPciFwDtbLoadAddr) ∨
    (img.type = ambaPciFwImageRootfs ∧
      action = .command ringCmdSetInitrdAddr (img.length.setWidth 32) ambaPciFwRootfsLoadAddr) ∨
    (img.type = ambaPciFwImageKernel ∧
      action = .command ringCmdSetLnxAddr 0 ambaPciFwKernelLoadAddr)

theorem pcieRingTail_sets {img : FwImageDesc} (known : img.type ∈ pcieFwXferOrder) :
    SetsAddress img (.command (pcieRingTail img.type img.length).1
      (pcieRingTail img.type img.length).2 (pcieFwLoadAddr img.type)) := by
  rw [pcieFwXferOrder, List.mem_cons, List.mem_cons, List.mem_singleton] at known
  rcases known with dtb | rootfs | kernel
  · exact Or.inl ⟨dtb, by rw [dtb]; rfl⟩
  · exact Or.inr (Or.inl ⟨rootfs, by rw [rootfs]; rfl⟩)
  · exact Or.inr (Or.inr ⟨kernel, by rw [kernel]; rfl⟩)

/-- When the call returns 0, the endpoint has executed the writes of the image and its padding to
consecutive addresses, then the command, and nothing else; and the ring is idle again. -/
theorem image_delivered (t : Timing) (base : Mapping) (ringMapSize userBase : BitVec 64)
    (img : FwImageDesc) (user : BitVec 64 → Byte) (num maxBlk : BitVec 32) (log : List EpAction)
    (s s' : RingWorld) (header : RingHeader num maxBlk ringMapSize)
    (start : IdleRing num maxBlk log s) (known : img.type ∈ pcieFwXferOrder)
    (long : 1 ≤ img.length.toNat) (short : img.length.toNat ≤ 2 ^ 40)
    (run : (ringMachine user).Steps
      (pcieRingXferUser t base ringMapSize userBase img, s) (.done 0, s')) :
    ∃ datas last, IdleRing num maxBlk (log ++ datas ++ [last]) s' ∧ SetsAddress img last ∧
      Tiles (pcieFwLoadAddr img.type) datas
        (userBytes user (userBase + img.offset) img.length.toNat ++
          List.replicate (paddedLength img.length - img.length.toNat) 0) := by
  have total : (pcieRingXferTotal img.length).toNat =
      img.length.toNat + (paddedLength img.length - img.length.toNat) := by
    unfold paddedLength
    rw [pcieRingXferTotal_toNat, if_pos (by omega)]
    omega
  have few : ringChunks (pcieRingXferTotal img.length) ≤ 2 ^ 32 - 1 := by
    unfold ringChunks
    rw [total, paddedLength]
    omega
  have sent : (ringMachine user).wp unguarded (fun ret s' => ret = 0 →
      ∃ posts, ImagePosted user userBase img posts ∧ IdleRing num maxBlk (log ++ posts) s')
      (pcieRingXferUser t base ringMapSize userBase img) s :=
    pcieRingXferUser_posts (ring_tracking header t base ringMapSize log) userBase img few start
  obtain ⟨posts, ⟨datas, posted, tiles⟩, idle⟩ := wp_post sent run rfl
  rw [posted, ← List.append_assoc] at idle
  rw [total, loadBytes_imageCells] at tiles
  exact ⟨datas, _, idle, pcieRingTail_sets known, tiles⟩

/-! A run -/

/-- The clock stands still, every allocation succeeds, no copy from user space faults, and the
endpoint takes a step whenever it is told to. -/
def ringDriver (user : BitVec 64 → Byte) : Driver Op Op.Reply RingWorld Unit where
  answer s op :=
    match op with
    | .readl _ _ off => some (load32 s.bar off, s)
    | .writel _ _ off value => some ((), { s with bar := store32 s.bar off value })
    | .memcpyToio _ _ off bytes => some ((), { s with bar := copyToio s.bar off bytes })
    | .copyFromUser src length =>
        some (some ⟨(userBytes user src length).toArray, by simp⟩, s)
    | .jiffies => some ((0 : BitVec 64), s)
    | .kmalloc _ => some (true, s)
    | .usleepRange => some ((), s)
    | .pciSetMaster _ => some ((), s)
    | _ => none
  interfere _ s :=
    match s.phase with
    | .waiting =>
        if s.used ≠ s.avail - s.num then
          some { s with phase := .fetched (loadDesc s.bar (pcieRingDesc (s.avail - s.num) s.num)) }
        else none
    | .fetched desc => some { s with phase := .executed, log := s.log ++ [execDesc s.bar desc] }
    | .executed => some { s with phase := .waiting, bar := store32 s.bar rhAvailOff (s.avail + 1) }

theorem ringDriver_sound (user : BitVec 64 → Byte) :
    (ringDriver user).Sound (ringMachine user) where
  answer := by
    intro s op reply s' answered
    cases op with
    | readl fn base off =>
        cases answered
        exact ⟨rfl, rfl⟩
    | memcpyToio fn base off bytes =>
        cases answered
        exact copyToio_copies off bytes s
    | copyFromUser src length =>
        cases answered
        refine ⟨rfl, ?_⟩
        rintro _ ⟨⟩
        simp
    | writel fn base off value =>
        cases answered
        rfl
    | jiffies =>
        cases answered
        rfl
    | kmalloc size =>
        cases answered
        rfl
    | usleepRange =>
        cases answered
        rfl
    | pciSetMaster handle =>
        cases answered
        rfl
    | _ => cases answered
  interfere := by
    intro _ s s' moved
    simp only [ringDriver] at moved
    split at moved
    · rename_i waiting
      rw [Option.ite_none_right_eq_some] at moved
      obtain ⟨published, same⟩ := moved
      cases same
      exact .fetch s waiting published
    · rename_i desc fetched
      cases moved
      exact .execute s desc fetched
    · rename_i executed
      cases moved
      exact .advance s executed

/-- A ring of one slot and one block, idle. -/
def oneSlotRing : RingWorld where
  bar cell := if cell = 8 ∨ cell = 16 ∨ cell = 20 then 1 else 0
  phase := .waiting
  log := []

/-- The endpoint consumes each of the two descriptors as soon as it is published. -/
def promptSchedule : List (Option Unit) :=
  List.replicate 16 none ++ List.replicate 3 (some ()) ++ List.replicate 10 none ++
    List.replicate 3 (some ()) ++ List.replicate 5 none

/-- A DTB of 16 bytes. -/
def dtbImage : FwImageDesc := ⟨ambaPciFwImageDtb, 0, 16⟩

def sentDtb : Option (Prog Op Op.Reply Int × RingWorld) :=
  (ringDriver fun _ => 7).run promptSchedule
    (pcieRingXferUser ⟨1000, 1⟩ 0 1024 0x1000 dtbImage, oneSlotRing)

theorem sentDtb_done : ∃ s', sentDtb = some (.done 0, s') := by
  have returned : (sentDtb.bind fun c => c.1.result) = some 0 := by decide +kernel
  obtain ⟨⟨program, s'⟩, found, result⟩ := Option.bind_eq_some_iff.mp returned
  cases program with
  | done value =>
      cases result
      exact ⟨s', found⟩
  | call op next => cases result

theorem image_delivered_dtb :
    ∃ s' datas last, IdleRing 1 1 ([] ++ datas ++ [last]) s' ∧ SetsAddress dtbImage last ∧
      Tiles (pcieFwLoadAddr dtbImage.type) datas (userBytes (fun _ => 7) (0x1000 + 0) 16 ++
        List.replicate 0 0) := by
  obtain ⟨s', ran⟩ := sentDtb_done
  have header : RingHeader 1 1 1024 :=
    ⟨by decide, by decide, by decide, by decide, by decide⟩
  have start : IdleRing 1 1 [] oneSlotRing := ⟨by decide, by decide, by decide, rfl, rfl⟩
  exact ⟨s', image_delivered ⟨1000, 1⟩ 0 1024 0x1000 dtbImage (fun _ => 7) 1 1 [] oneSlotRing s'
    header start (by decide) (by decide) (by decide)
    ((ringDriver_sound fun _ => 7).steps promptSchedule _ _ ran)⟩

end AmbaPci

import AmbaPci.PostPoints
import AmbaPci.RingFlow
import AmbaPci.RingRuns

set_option autoImplicit false

/- The flow control of `pcie_ring_xfer_user`: between any two posts the context, the registers and
the descriptors in the ring agree, so that the tests of its loops mean what they should. -/
namespace AmbaPci

open ByteMemory (Byte)
open Interaction Interaction.Machine

/-! What one access does -/

section Access

variable {num : BitVec 32} {ring : PcieRingCtx} {s s' : RingFlow}

/-- Only writes and the samples of `pcie_ring_wait_u32` change anything. -/
theorem flow_kept {op : Op} {reply : op.Reply} (answered : flowMachine.answer s op reply s')
    (noWrite : ∀ fn base off value, op ≠ .writel fn base off value)
    (noCopy : ∀ fn base off bytes, op ≠ .memcpyToio fn base off bytes)
    (noSample : ∀ base, op ≠ .readl .waitU32 base rhAvailOff) : s' = s := by
  cases op with
  | readl fn base off =>
      have other : ¬ (fn = .waitU32 ∧ off = rhAvailOff) := by
        intro sample
        exact noSample base (by rw [sample.1, sample.2])
      exact answered.2.trans (if_neg other)
  | writel fn base off value => exact absurd rfl (noWrite fn base off value)
  | memcpyToio fn base off bytes => exact absurd rfl (noCopy fn base off bytes)
  | _ => exact answered

theorem flow_sample {base : Mapping} {avail : BitVec 32}
    (read : flowMachine.answer s (.readl .waitU32 base rhAvailOff) avail s') :
    avail = s.avail ∧ s' = s.sample :=
  ⟨read.1, read.2.trans (if_pos ⟨rfl, rfl⟩)⟩

theorem flow_idles {guard : RingFlow → Op → Prop} {before : RingFlow → Prop}
    (stable : flowMachine.Stable before) (ready : ∀ s op, before s → guard s op) :
    Idles flowMachine guard before where
  stable := stable
  jiffiesReady s here := ready s .jiffies here
  jiffies _ _ _ here clock := by rwa [flow_kept clock nofun nofun nofun]
  sleepReady s here := ready s .usleepRange here
  sleep _ _ _ here slept := by rwa [flow_kept slept nofun nofun nofun]
  spinReady s here := ready s .spin here

/-- A sample that ends the wait has found a free slot. -/
theorem flowRoom_of_awaited {base : Mapping} {avail : BitVec 32} (holds : CtxFlow num ring s)
    (read : flowMachine.answer s (.readl .waitU32 base rhAvailOff) avail s')
    (awaited : avail ≠ ring.curAvail) : FlowRoom num ring s' := by
  obtain ⟨value, same⟩ := flow_sample read
  rw [value] at awaited
  have room := holds.avail_ne_iff.mp awaited
  rw [holds.inv.unconsumed] at room
  rw [same]
  exact ⟨holds.sample, room⟩

/-- The write of `used` publishes the descriptor. -/
theorem ctxFlow_publish {fn : RingFn} {base : Mapping} {ring' : PcieRingCtx} {used : BitVec 32}
    {reply : Unit} (sampled : used = ring.curAvail) (room : FlowRoom num ring s)
    (next : ring'.num = ring.num ∧ ring'.maxBlk = ring.maxBlk ∧
      ring'.curAvail = ring.curAvail + 1)
    (written : flowMachine.answer s (.writel fn base rhUsedOff (used + 1)) reply s') :
    CtxFlow num ring' s' := by
  obtain ⟨sameNum, sameBlk, nextAvail⟩ := next
  have current := room.1.curAvail
  have there : s' = s.write rhUsedOff (s.used + 1) := by
    rw [sampled, current] at written
    exact written
  have used' : (s.write rhUsedOff (s.used + 1)).used = s.used + 1 :=
    ByteMemory.load32_store32_same _ _ _
  rw [there]
  refine ⟨room.1.inv.publish room.2, sameNum.trans room.1.num, ?_, ?_⟩
  · rw [sameBlk]
    exact room.1.maxBlk
  · rw [nextAvail, current, used']

/-- The steps of a post, by a context in step with the registers. -/
theorem flow_posts (num : BitVec 32) {fn : RingFn} (other : fn ≠ .waitU32)
    (ring ring' : PcieRingCtx) (words : List (BitVec 32))
    (next : ring'.num = ring.num ∧ ring'.maxBlk = ring.maxBlk ∧
      ring'.curAvail = ring.curAvail + 1) :
    PostSteps flowMachine (fun s _ => FlowInv num s) fn ring words (CtxFlow num ring)
      (fun _ => FlowRoom num ring) (fun used s => used = ring.curAvail ∧ FlowRoom num ring s)
      (CtxFlow num ring') where
  idles := flow_idles (ctxFlow_stable num ring) fun _ _ here => here.inv
  roomStable _ := flowRoom_stable num ring
  sampledStable _ s s' here moved := ⟨here.1, flowRoom_stable num ring s s' here.2 moved⟩
  settled := ctxFlow_stable num ring'
  availReady _ here := here.inv
  hit _ _ _ here read awaited := flowRoom_of_awaited here read awaited
  miss _ _ _ here read := by
    rw [(flow_sample read).2]
    exact here.sample
  wordReady _ _ _ _ room := room.1.inv
  word s written value reply s' _ room stored := by
    have high : rhDesc0Off ≤ pcieRingDesc ring.curAvail ring.num + 4 * written.length := by
      unfold pcieRingDesc
      omega
    have there : s' = s.write (pcieRingDesc ring.curAvail ring.num + 4 * written.length) value :=
      stored
    rw [there]
    exact room.congr (RingFlow.write_sameHeader value high) (RingFlow.write_published value high)
      rfl
  usedReady _ room := room.1.inv
  used s value s' room read := by
    have value' : value = s.used := read.1
    have same : s' = s := flow_kept read nofun nofun fun _ same => other (Op.readl.inj same).1
    rw [same]
    exact ⟨value'.trans room.1.curAvail.symm, room⟩
  publishReady _ _ here := here.2.1.inv
  publish _ _ _ _ here written := ctxFlow_publish here.1 here.2 next written

/-- A data block is copied behind the header. -/
theorem flowRoom_copy {base : Mapping} {blkid : BitVec 32} {bytes : List Byte} {reply : Unit}
    (room : FlowRoom num ring s)
    (copied : flowMachine.answer s (.memcpyToio .postData base
      (pcieRingDataBlk (blkid % ring.maxBlk)) bytes) reply s') : FlowRoom num ring s' := by
  have behind := dataBlk_ge ring.maxBlk blkid room.1.maxBlk
  have high : rhDesc0Off ≤ pcieRingDataBlk (blkid % ring.maxBlk) := by
    unfold rhDesc0Off
    omega
  have same := s.copy_sameHeader bytes high
  have there : s' = { s with bar := ByteMemory.storeBytes s.bar _ bytes } := copied
  rw [there]
  exact room.congr same rfl rfl

end Access

/-! What the ring functions do -/

section Functions

variable {num : BitVec 32} {ring : PcieRingCtx} {s : RingFlow}

/-- A context that is set up on an idle ring agrees with the registers. -/
theorem pcieRingCtxInit_flow (base : Mapping) (size : BitVec 64) (idle : s.Idle)
    (sameNum : s.num = num) :
    flowMachine.wp (fun s' _ => FlowInv num s') (HandsOn (FlowInv num) (CtxFlow num))
      (pcieRingCtxInit base size) s := by
  have stable : flowMachine.Stable fun s => s.Idle ∧ s.num = num := idle_stable
  have inv : ∀ s : RingFlow, s.Idle ∧ s.num = num → FlowInv num s :=
    fun s here => .of_idle here.1 here.2
  have refuse : ∀ s : RingFlow, s.Idle ∧ s.num = num →
      flowMachine.wp (fun s' _ => FlowInv num s') (HandsOn (FlowInv num) (CtxFlow num))
        (.done (-einval, {})) s :=
    fun s here => handsOn_done stable inv (show -einval ≠ 0 by decide) {} here
  apply wp_perform stable ⟨idle, sameNum⟩ inv
  intro s₁ n s₂ idle₁ readNum
  have number : n = num := readNum.1.trans idle₁.2
  rw [flow_kept readNum nofun nofun nofun]
  apply wp_perform stable idle₁ inv
  intro s₃ m s₄ idle₃ readMaxBlk
  rw [flow_kept readMaxBlk nofun nofun nofun]
  split
  · exact refuse s₃ idle₃
  · rename_i nonzero
    split
    · exact refuse s₃ idle₃
    · apply wp_perform stable idle₃ inv
      intro s₅ a s₆ idle₅ readAvail
      have value : a = s₅.avail := readAvail.1
      rw [flow_kept readAvail nofun nofun nofun]
      have positive : 0 < m.toNat :=
        BitVec.toNat_pos_of_ne_zero fun zero => nonzero (Or.inr zero)
      have position : a - n = s₅.used := by
        rw [value, number, ← idle₅.1.registers, idle₅.2, BitVec.add_sub_cancel]
      exact wp_done (ctxFlow_stable num _) ⟨inv s₅ idle₅, number, positive, position⟩
        fun s' here => ⟨here.inv, fun _ => here⟩

theorem pcieRingPostData_flow (t : Timing) (bytes : List Byte) (csz : BitVec 32)
    (epAddr : BitVec 64) (holds : CtxFlow num ring s) :
    flowMachine.wp (fun s' _ => FlowInv num s') (HandsOn (FlowInv num) (CtxFlow num))
      (pcieRingPostData t ring bytes csz epAddr) s := by
  have other : RingFn.postData ≠ .waitU32 := by decide
  have steps := flow_posts num other ring ring.posted
  apply wp_mono (pcieRingPostData_wp (steps _ ⟨rfl, rfl, rfl⟩) ?_ ?_ t holds)
  · exact fun posted s' result => handsOn_of_posted (fun _ _ here => here.inv) result
  · exact fun s' room => room.1.inv
  · exact fun s₁ reply s₂ room copied => flowRoom_copy room copied

theorem pcieRingPostCmd_flow (t : Timing) (cmd size : BitVec 32) (addr : BitVec 64)
    (holds : CtxFlow num ring s) :
    flowMachine.wp (fun s' _ => FlowInv num s') (HandsOn (FlowInv num) (CtxFlow num))
      (pcieRingPostCmd t ring cmd size addr) s := by
  have other : RingFn.postCmd ≠ .waitU32 := by decide
  have steps := flow_posts num other ring { ring with curAvail := ring.curAvail + 1 }
  apply wp_mono (pcieRingPostCmd_wp (steps _ ⟨rfl, rfl, rfl⟩) t holds)
  exact fun posted s' result => handsOn_of_posted (fun _ _ here => here.inv) result

theorem pcieRingFillChunk_flow (src dataLen epPos : BitVec 64) (csz : BitVec 32)
    (holds : CtxFlow num ring s) :
    flowMachine.wp (fun s' _ => FlowInv num s') (fun _ => CtxFlow num ring)
      (pcieRingFillChunk src dataLen epPos csz) s := by
  apply wp_mono (pcieRingFillChunk_wp (ctxFlow_stable num ring) (fun _ _ => True) src dataLen epPos
    csz (fun _ _ here => here.inv) (fun s' _ _ s'' here copied => ?_) holds)
  · exact fun _ _ filled => filled.1
  · rw [flow_kept copied nofun nofun nofun]
    exact ⟨here, fun _ _ => trivial⟩

theorem ringChunkPass_flow (t : Timing) (src dataLen loadAddr total epPos : BitVec 64)
    (holds : CtxFlow num ring s) :
    flowMachine.wp (fun s' _ => FlowInv num s') (HandsOn (FlowInv num) (CtxFlow num))
      (ringChunkPass t src dataLen loadAddr total epPos ring) s :=
  ringChunkPass_handsOn (ctxFlow_stable num ring) (fun _ here => here.inv) t src dataLen loadAddr
    total epPos (fun _ _ here => here.inv)
    (fun _ _ _ _ here copied => by rwa [flow_kept copied nofun nofun nofun])
    (fun bytes _ here => pcieRingPostData_flow t bytes _ _ here) holds

/-- The three reads of `pcie_ring_xfer_poll` come one after the other, but `used` and `num` stay
what they were until `avail` is read. -/
theorem flow_pollReads (num : BitVec 32) (base : Mapping) :
    PollReads flowMachine (fun s _ => FlowInv num s) base (FlowInv num)
      (fun u s => FlowInv num s ∧ u = s.used)
      (fun u n s => (FlowInv num s ∧ u = s.used) ∧ n = num)
      (fun s => s.Idle ∧ s.num = num) := by
  have usedStable : ∀ u, flowMachine.Stable fun s => FlowInv num s ∧ u = s.used := by
    intro u s s' here moved
    obtain ⟨inv, same, -⟩ := here.1.consumes moved
    exact ⟨inv, here.2.trans same.symm⟩
  exact
    { usedStable := usedStable
      numStable := fun u n s s' here moved => ⟨usedStable u s s' here.1 moved, here.2⟩
      settled := idle_stable
      usedReady := fun _ here => here
      readUsed := fun s u s' here read => by
        rw [flow_kept read nofun nofun nofun]
        exact ⟨here, read.1⟩
      numReady := fun _ _ here => here.1
      readNum := fun u s n s' here read => by
        rw [flow_kept read nofun nofun nofun]
        exact ⟨here, read.1.trans here.1.numReg⟩
      availReady := fun _ _ _ here => here.1.1
      idle := fun u n s a s' here read drained => by
        obtain ⟨⟨inv, used⟩, number⟩ := here
        have value : a = s.avail := read.1
        rw [flow_kept read nofun nofun nofun]
        rw [used, number, value] at drained
        exact ⟨inv.idle drained, inv.numReg⟩
      busy := fun u n s a s' here read _ => by
        rw [flow_kept read nofun nofun nofun]
        exact here.1.1 }

/-- `pcie_ring_xfer_poll` returns 0 on an idle ring only. -/
theorem pcieRingXferPoll_flow (t : Timing) (base : Mapping) (holds : FlowInv num s) :
    flowMachine.wp (fun s' _ => FlowInv num s')
      (fun ret s' => FlowInv num s' ∧ (ret = 0 → s'.Idle)) (pcieRingXferPoll t base 5000) s := by
  apply wp_mono (pcieRingXferPoll_wp (flow_idles (flowInv_stable num) fun _ _ here => here)
    (flow_pollReads num base) t 5000 holds)
  intro ret s' result
  rcases nonzero_of_timeout result with ⟨-, idle, same⟩ | ⟨failed, inv⟩
  · exact ⟨.of_idle idle same, fun _ => idle⟩
  · exact ⟨inv, fun zero => absurd zero failed⟩

/-- The wait for room, from its first sample on: it has returned 0 as soon as a sample has found
fewer than `num` descriptors unconsumed, and not before. -/
theorem pcieRingWaitU32_flow (t : Timing) (holds : CtxFlow num ring s)
    (fresh : s.sampled = none) :
    flowMachine.wp (fun s' _ => ¬ SampledRoom num s') (fun ret s' => SampledRoom num s' ↔ ret = 0)
      (pcieRingWaitU32 t ring.base rhAvailOff ring.curAvail false 5000) s := by
  have start : ¬ SampledRoom num s := by
    intro sampled
    obtain ⟨count, same, -⟩ := sampled
    rw [fresh] at same
    cases same
  have stable : flowMachine.Stable fun s => CtxFlow num ring s ∧ ¬ SampledRoom num s :=
    fun s s' here moved =>
      ⟨ctxFlow_stable num ring s s' here.1 moved, notSampledRoom_stable num s s' here.2 moved⟩
  apply wp_mono (pcieRingWaitU32_wp (flow_idles stable fun _ _ here => here.2)
    (sampledRoom_stable num) t ring.base rhAvailOff ring.curAvail false 5000
    (fun _ here => here.2) (fun s₁ avail s₂ here read awaited => ?_)
    (fun s₁ avail s₂ here read full => ?_) ⟨holds, start⟩)
  · intro ret s' result
    rcases nonzero_of_timeout result with ⟨zero, room⟩ | ⟨failed, here⟩
    · exact ⟨fun _ => zero, fun _ => room⟩
    · exact ⟨fun room => absurd room here.2, fun zero => absurd zero failed⟩
  · obtain ⟨value, same⟩ := flow_sample read
    rw [if_neg (by decide), value] at awaited
    rw [same]
    exact sampledRoom_sample.mpr (here.1.avail_ne_iff.mp awaited)
  · obtain ⟨value, same⟩ := flow_sample read
    rw [if_neg (by decide), value] at full
    rw [same]
    refine ⟨here.1.sample, fun room => full ?_⟩
    exact here.1.avail_ne_iff.mpr (sampledRoom_sample.mp room)

end Functions

/-! The transfer of one image -/

section Transfer

variable {num : BitVec 32} {t : Timing} {base : Mapping} {ringMapSize userBase : BitVec 64}
  {img : FwImageDesc} {s₀ s : RingFlow} {phase : XferPhase} {ring : PcieRingCtx}

/-- Between any two posts the context agrees with the registers. -/
theorem BetweenPosts.flow
    (point : BetweenPosts flowMachine t base ringMapSize userBase img s₀ phase ring s)
    (idle : s₀.Idle) : CtxFlow s₀.num ring s := by
  induction point with
  | @opened s₁ s ring allocated set =>
      have kept : flowMachine.wp (fun _ _ => True) (fun _ s => s.Idle ∧ s.num = s₀.num)
          (perform (.kmalloc ringBlockSize)) s₀ := by
        apply wp_call idle_stable ⟨idle, rfl⟩ fun _ _ => trivial
        intro s reply s' here answered
        rw [flow_kept answered nofun nofun nofun]
        exact wp_done idle_stable here fun _ here' => here'
      obtain ⟨idle₁, same⟩ := wp_post kept allocated
      exact (wp_post (pcieRingCtxInit_flow base ringMapSize idle₁ same) set).2 rfl
  | fetched before inside fetched ih =>
      exact wp_post (pcieRingFillChunk_flow _ _ _ _ ih) fetched
  | posted before posted ih => exact (wp_post (pcieRingPostData_flow t _ _ _ ih) posted).2 rfl
  | closed before posted ih => exact (wp_post (pcieRingPostCmd_flow t _ _ _ ih) posted).2 rfl

theorem flow_stages (num : BitVec 32) (t : Timing) (base : Mapping)
    (ringMapSize userBase : BitVec 64) (img : FwImageDesc) :
    XferStages flowMachine (fun s _ => FlowInv num s) t base ringMapSize userBase img
      (fun s => s.Idle ∧ s.num = num) (fun _ => CtxFlow num) (fun _ => FlowInv num) :=
  .of_handsOn idle_stable (flowInv_stable num) (ctxFlow_stable num)
    (fun _ here => .of_idle here.1 here.2) (fun _ here => .of_idle here.1 here.2)
    (fun _ _ _ here allocated => by rwa [flow_kept allocated nofun nofun nofun])
    (fun _ here => pcieRingCtxInit_flow base ringMapSize here.1 here.2)
    (fun src dataLen loadAddr total epPos _ _ here =>
      ringChunkPass_flow t src dataLen loadAddr total epPos here)
    (fun cmd size addr _ _ here => pcieRingPostCmd_flow t cmd size addr here)
    (fun _ here => wp_mono (pcieRingXferPoll_flow t base here) fun _ _ result => result.1)

end Transfer

/-- The flow control is exact in the transfer of an image that starts at `s₀`: `context`, `wait` and
`poll` are about the points between the posts, all of which lie on a run, `count` is about every
state of every run, `idle` about the runs that return 0. The wait is watched from its start. -/
structure FlowExact (t : Timing) (base : Mapping) (ringMapSize userBase : BitVec 64)
    (img : FwImageDesc) (s₀ : RingFlow) : Prop where
  reached : ∀ phase ring s,
    BetweenPosts flowMachine t base ringMapSize userBase img s₀ phase ring s →
      flowMachine.Steps (pcieRingXferUser t base ringMapSize userBase img, s₀)
        (phase.rest t base userBase img ring, s)
  context : ∀ phase ring s,
    BetweenPosts flowMachine t base ringMapSize userBase img s₀ phase ring s →
      ring.curAvail = s.used
  count : ∀ program s,
    flowMachine.Steps (pcieRingXferUser t base ringMapSize userBase img, s₀) (program, s) →
      s.num = s₀.num ∧ s.consumed ≤ s.published ∧
        s.unconsumed = (s.used - (s.avail - s.num)).toNat ∧ s.unconsumed ≤ s.num.toNat
  wait : ∀ phase ring s,
    BetweenPosts flowMachine t base ringMapSize userBase img s₀ phase ring s →
      ∀ program s', flowMachine.Steps
        (pcieRingWaitU32 t ring.base rhAvailOff ring.curAvail false 5000,
          { s with sampled := none }) (program, s') →
        (SampledRoom s₀.num s' ↔ program = .done 0)
  poll : ∀ phase ring s,
    BetweenPosts flowMachine t base ringMapSize userBase img s₀ phase ring s →
      ∀ s', flowMachine.Steps (pcieRingXferPoll t base 5000, s) (.done 0, s') → s'.Idle
  idle : ∀ s',
    flowMachine.Steps (pcieRingXferUser t base ringMapSize userBase img, s₀) (.done 0, s') →
      s'.Idle

/-- Any `num`, any position of an idle ring: the sums and differences wrap where they should. -/
theorem ring_flow_exact (t : Timing) (base : Mapping) (ringMapSize userBase : BitVec 64)
    (img : FwImageDesc) {s₀ : RingFlow} (start : s₀.Idle) :
    FlowExact t base ringMapSize userBase img s₀ := by
  have poll : ∀ phase ring s,
      BetweenPosts flowMachine t base ringMapSize userBase img s₀ phase ring s →
        ∀ s', flowMachine.Steps (pcieRingXferPoll t base 5000, s) (.done 0, s') → s'.Idle := by
    intro phase ring s point s' polled
    exact (wp_post (pcieRingXferPoll_flow t base (point.flow start).inv) polled).2 rfl
  refine ⟨?reached, ?context, ?count, ?wait, poll, ?idle⟩
  case reached => exact fun phase ring s point => point.reached
  case context => exact fun phase ring s point => (point.flow start).curAvail
  case count =>
    intro program s run
    have inv : FlowInv s₀.num s :=
      wp_reached ((flow_stages s₀.num t base ringMapSize userBase img).wp ⟨start, rfl⟩)
        (fun _ _ here => here) (fun _ _ here => here) run
    have pending := inv.unconsumed
    have count := inv.count
    have few := inv.few
    rw [← inv.numReg] at pending few
    exact ⟨inv.numReg, by omega, pending, by omega⟩
  case wait =>
    intro phase ring s point program s' run
    have holds : CtxFlow s₀.num ring { s with sampled := none } :=
      (point.flow start).congr (fun _ _ => rfl) rfl rfl
    have here := wp_steps (pcieRingWaitU32_flow t holds rfl) run
    cases program with
    | done ret =>
        rw [Prog.done.injEq]
        exact here s' .refl
    | call op next =>
        have full := (here s' .refl).1
        exact ⟨fun room => absurd room full, nofun⟩
  case idle =>
    intro s' run
    obtain ⟨ring, s, point, polled⟩ := BetweenPosts.of_return run
    exact poll .closed ring s point s' polled

/-! A run around the end of the counters -/

/-- Every loop finds what it waits for if it is there, and the endpoint consumes when it is told. -/
def flowDriver : Driver Op Op.Reply RingFlow Unit where
  answer s op :=
    match op with
    | .readl fn _ off =>
        some (ByteMemory.load32 s.bar off,
          if fn = .waitU32 ∧ off = rhAvailOff then s.sample else s)
    | .writel _ _ off value => some ((), s.write off value)
    | .memcpyToio _ _ off bytes =>
        some ((), { s with bar := ByteMemory.storeBytes s.bar off bytes })
    | .copyFromUser _ length => some (some (Vector.replicate length 0), s)
    | .jiffies => some ((0 : BitVec 64), s)
    | .kmalloc _ => some (true, s)
    | _ => none
  interfere _ s :=
    if s.consumed < s.published then
      some { s with
        bar := ByteMemory.store32 s.bar rhAvailOff (s.avail + 1)
        consumed := s.consumed + 1 }
    else none

theorem flowDriver_sound : flowDriver.Sound flowMachine where
  answer := by
    intro s op reply s' answered
    cases op with
    | readl fn base off =>
        cases answered
        exact ⟨rfl, rfl⟩
    | writel fn base off value =>
        cases answered
        rfl
    | memcpyToio fn base off bytes =>
        cases answered
        rfl
    | copyFromUser src length =>
        cases answered
        rfl
    | jiffies =>
        cases answered
        rfl
    | kmalloc size =>
        cases answered
        rfl
    | _ => cases answered
  interfere := by
    intro _ s s' moved
    simp only [flowDriver, Option.ite_none_right_eq_some] at moved
    obtain ⟨more, same⟩ := moved
    cases same
    exact .consume s _ more fun _ _ => rfl

/-- Three slots, none in use; the next position is `2 ^ 32 - 2`. -/
def wrappingFlow : RingFlow where
  bar := ByteMemory.store32 (ByteMemory.store32 (ByteMemory.store32 (ByteMemory.store32 (fun _ => 0)
    rhMaxBlkOff 16) rhNumOff 3) rhUsedOff 0xfffffffe) rhAvailOff 1
  published := 0
  consumed := 0
  sampled := none

/-- An image of two chunks: both and the command are posted before the endpoint consumes any. -/
def wrappingRun : Option (Host Int × RingFlow) :=
  flowDriver.run
    (List.replicate 38 none ++ [some (), some (), some ()] ++ List.replicate 5 none)
    (pcieRingXferUser onePoll 0 0x100000 0x1000 ⟨ambaPciFwImageDtb, 0, 528⟩, wrappingFlow)

theorem wrappingRun_ends : ∃ s, wrappingRun = some (.done 0, s) ∧ s.used = 1 ∧ s.avail = 4 := by
  have ends : (wrappingRun.map fun c => (c.1.result, c.2.used, c.2.avail)) =
      some (some 0, 1, 4) := by decide +kernel
  obtain ⟨⟨program, s⟩, ran, same⟩ := Option.map_eq_some_iff.mp ends
  simp only [Prod.mk.injEq] at same
  obtain ⟨returned, used, avail⟩ := same
  cases program with
  | done value =>
      cases returned
      exact ⟨s, ran, used, avail⟩
  | call op next => cases returned

theorem ring_flow_exact_wraps :
    wrappingFlow.Idle ∧ ∃ s,
      flowMachine.Steps (pcieRingXferUser onePoll 0 0x100000 0x1000 ⟨ambaPciFwImageDtb, 0, 528⟩,
        wrappingFlow) (.done 0, s) ∧ s.used = 1 ∧ s.avail = 4 ∧ s.Idle := by
  have start : wrappingFlow.Idle := ⟨by decide, rfl⟩
  obtain ⟨s, ran, used, avail⟩ := wrappingRun_ends
  have run := flowDriver_sound.steps _ _ _ ran
  have exact' := ring_flow_exact onePoll 0 0x100000 0x1000 ⟨ambaPciFwImageDtb, 0, 528⟩ start
  exact ⟨start, s, run, used, avail, exact'.idle s run⟩

end AmbaPci

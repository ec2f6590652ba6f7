import AmbaPci.InteractionMachine
import AmbaPci.RingArithmetic

set_option autoImplicit false

/- Rules for the ring functions, over any machine that answers their accesses: one for each loop,
in terms of the assertions that hold before and after it. -/
namespace AmbaPci

open Interaction

variable {σ : Type} {M : Machine Op Op.Reply σ} {guard : σ → Op → Prop}

/-- An assertion a polling loop can wait in: the surroundings, the clock and a sleep all keep it. -/
structure Idles (M : Machine Op Op.Reply σ) (guard : σ → Op → Prop) (before : σ → Prop) : Prop where
  stable : M.Stable before
  jiffiesReady : ∀ s, before s → guard s .jiffies
  jiffies : ∀ s now s', before s → M.answer s .jiffies now s' → before s'
  sleepReady : ∀ s, before s → guard s .usleepRange
  sleep : ∀ s reply s', before s → M.answer s .usleepRange reply s' → before s'
  spinReady : ∀ s, before s → guard s .spin

theorem spin_wp {α : Type} {before : σ → Prop} {post : α → σ → Prop} (idles : Idles M guard before)
    {s : σ} (holds : before s) : M.wp guard post (spin : Host α) s :=
  Machine.wp_call idles.stable holds idles.spinReady fun _ impossible => nomatch impossible

/-- A loop that samples a register leaves with the awaited condition sampled true, or times out. -/
theorem pcieRingWaitLoop_wp {before after : σ → Prop} (idles : Idles M guard before)
    (settled : M.Stable after) (base : Mapping) (off : Nat) (want : BitVec 32) (equal : Bool)
    (deadline : BitVec 64)
    (readReady : ∀ s, before s → guard s (.readl .waitU32 base off))
    (hit : ∀ s val s', before s → M.answer s (.readl .waitU32 base off) val s' →
      (if equal then val = want else val ≠ want) → after s')
    (miss : ∀ s val s', before s → M.answer s (.readl .waitU32 base off) val s' →
      ¬ (if equal then val = want else val ≠ want) → before s')
    (polls : Nat) {s : σ} (holds : before s) :
    M.wp guard (fun ret s' => (ret = 0 ∧ after s') ∨ (ret = -etimedout ∧ before s'))
      (pcieRingWaitLoop base off want equal deadline polls) s := by
  induction polls generalizing s with
  | zero => exact spin_wp idles holds
  | succ polls ih =>
      apply Machine.wp_perform idles.stable holds idles.jiffiesReady
      intro s₁ now s₂ before₁ clock
      have before₂ := idles.jiffies s₁ now s₂ before₁ clock
      split
      · apply Machine.wp_perform idles.stable before₂ readReady
        intro s₃ val s₄ before₃ read
        by_cases awaited : if equal then val = want else val ≠ want
        · rw [if_pos awaited]
          exact Machine.wp_done settled (hit s₃ val s₄ before₃ read awaited)
            fun _ here => Or.inl ⟨rfl, here⟩
        · rw [if_neg awaited]
          have before₄ := miss s₃ val s₄ before₃ read awaited
          apply Machine.wp_perform idles.stable before₄ idles.sleepReady
          intro s₅ reply s₆ before₅ slept
          exact ih (idles.sleep s₅ reply s₆ before₅ slept)
      · exact Machine.wp_done idles.stable before₂ fun _ here => Or.inr ⟨rfl, here⟩

theorem pcieRingWaitU32_wp {before after : σ → Prop} (idles : Idles M guard before)
    (settled : M.Stable after) (t : Timing) (base : Mapping) (off : Nat) (want : BitVec 32)
    (equal : Bool) (timeoutMs : Nat)
    (readReady : ∀ s, before s → guard s (.readl .waitU32 base off))
    (hit : ∀ s val s', before s → M.answer s (.readl .waitU32 base off) val s' →
      (if equal then val = want else val ≠ want) → after s')
    (miss : ∀ s val s', before s → M.answer s (.readl .waitU32 base off) val s' →
      ¬ (if equal then val = want else val ≠ want) → before s')
    {s : σ} (holds : before s) :
    M.wp guard (fun ret s' => (ret = 0 ∧ after s') ∨ (ret = -etimedout ∧ before s'))
      (pcieRingWaitU32 t base off want equal timeoutMs) s := by
  apply Machine.wp_perform idles.stable holds idles.jiffiesReady
  intro s₁ now s₂ before₁ clock
  exact pcieRingWaitLoop_wp idles settled base off want equal _ readReady hit miss t.polls
    (idles.jiffies s₁ now s₂ before₁ clock)

/-- Most callers only ask whether it has returned 0. -/
theorem nonzero_of_timeout {before after : Prop} {ret : Int}
    (ended : (ret = 0 ∧ after) ∨ (ret = -etimedout ∧ before)) :
    (ret = 0 ∧ after) ∨ (ret ≠ 0 ∧ before) := by
  rcases ended with hit | ⟨late, here⟩
  · exact Or.inl hit
  · rw [late]
    exact Or.inr ⟨by decide, here⟩

/-- The three reads of `pcie_ring_xfer_poll`, each with the assertion it establishes. -/
structure PollReads (M : Machine Op Op.Reply σ) (guard : σ → Op → Prop) (base : Mapping)
    (before : σ → Prop) (used : BitVec 32 → σ → Prop) (num : BitVec 32 → BitVec 32 → σ → Prop)
    (after : σ → Prop) : Prop where
  usedStable : ∀ u, M.Stable (used u)
  numStable : ∀ u n, M.Stable (num u n)
  settled : M.Stable after
  usedReady : ∀ s, before s → guard s (.readl .xferPoll base rhUsedOff)
  readUsed : ∀ s u s', before s → M.answer s (.readl .xferPoll base rhUsedOff) u s' → used u s'
  numReady : ∀ u s, used u s → guard s (.readl .xferPoll base rhNumOff)
  readNum : ∀ u s n s', used u s → M.answer s (.readl .xferPoll base rhNumOff) n s' → num u n s'
  availReady : ∀ u n s, num u n s → guard s (.readl .xferPoll base rhAvailOff)
  idle : ∀ u n s a s', num u n s → M.answer s (.readl .xferPoll base rhAvailOff) a s' →
    u + n = a → after s'
  busy : ∀ u n s a s', num u n s → M.answer s (.readl .xferPoll base rhAvailOff) a s' →
    u + n ≠ a → before s'

theorem pcieRingPollLoop_wp {before after : σ → Prop} {used : BitVec 32 → σ → Prop}
    {num : BitVec 32 → BitVec 32 → σ → Prop} {base : Mapping} (idles : Idles M guard before)
    (reads : PollReads M guard base before used num after) (deadline : BitVec 64) (polls : Nat)
    {s : σ} (holds : before s) :
    M.wp guard (fun ret s' => (ret = 0 ∧ after s') ∨ (ret = -etimedout ∧ before s'))
      (pcieRingPollLoop base deadline polls) s := by
  induction polls generalizing s with
  | zero => exact spin_wp idles holds
  | succ polls ih =>
      apply Machine.wp_perform idles.stable holds idles.jiffiesReady
      intro s₁ now s₂ before₁ clock
      have before₂ := idles.jiffies s₁ now s₂ before₁ clock
      split
      · apply Machine.wp_perform idles.stable before₂ reads.usedReady
        intro s₃ u s₄ before₃ gotUsed
        apply Machine.wp_perform (reads.usedStable u) (reads.readUsed s₃ u s₄ before₃ gotUsed)
          (reads.numReady u)
        intro s₅ n s₆ used₅ gotNum
        apply Machine.wp_perform (reads.numStable u n) (reads.readNum u s₅ n s₆ used₅ gotNum)
          (reads.availReady u n)
        intro s₇ a s₈ num₇ gotAvail
        split
        · rename_i drained
          exact Machine.wp_done reads.settled (reads.idle u n s₇ a s₈ num₇ gotAvail drained)
            fun _ here => Or.inl ⟨rfl, here⟩
        · rename_i filled
          apply Machine.wp_perform idles.stable (reads.busy u n s₇ a s₈ num₇ gotAvail filled)
            idles.sleepReady
          intro s₉ reply s₁₀ before₉ slept
          exact ih (idles.sleep s₉ reply s₁₀ before₉ slept)
      · exact Machine.wp_done idles.stable before₂ fun _ here => Or.inr ⟨rfl, here⟩

theorem pcieRingXferPoll_wp {before after : σ → Prop} {used : BitVec 32 → σ → Prop}
    {num : BitVec 32 → BitVec 32 → σ → Prop} {base : Mapping} (idles : Idles M guard before)
    (reads : PollReads M guard base before used num after) (t : Timing) (timeoutMs : Nat)
    {s : σ} (holds : before s) :
    M.wp guard (fun ret s' => (ret = 0 ∧ after s') ∨ (ret = -etimedout ∧ before s'))
      (pcieRingXferPoll t base timeoutMs) s := by
  apply Machine.wp_perform idles.stable holds idles.jiffiesReady
  intro s₁ now s₂ before₁ clock
  exact pcieRingPollLoop_wp idles reads _ t.polls (idles.jiffies s₁ now s₂ before₁ clock)

/-! Posts -/

/-- The context after a DATA post. -/
def PcieRingCtx.posted (ring : PcieRingCtx) : PcieRingCtx :=
  { ring with curBlk := ring.curBlk + 1, curAvail := ring.curAvail + 1 }

/-- What is asked of the parts of a post: the wait for room, the words of the descriptor in their
order, and the write of `used`. `room` knows the words written so far, `sampled` what was read of
`used`. -/
structure PostSteps (M : Machine Op Op.Reply σ) (guard : σ → Op → Prop) (fn : RingFn)
    (ring : PcieRingCtx) (words : List (BitVec 32)) (before : σ → Prop)
    (room : List (BitVec 32) → σ → Prop) (sampled : BitVec 32 → σ → Prop) (after : σ → Prop) :
    Prop where
  idles : Idles M guard before
  roomStable : ∀ written, M.Stable (room written)
  sampledStable : ∀ used, M.Stable (sampled used)
  settled : M.Stable after
  availReady : ∀ s, before s → guard s (.readl .waitU32 ring.base rhAvailOff)
  hit : ∀ s avail s', before s → M.answer s (.readl .waitU32 ring.base rhAvailOff) avail s' →
    avail ≠ ring.curAvail → room [] s'
  miss : ∀ s avail s', before s → M.answer s (.readl .waitU32 ring.base rhAvailOff) avail s' →
    before s'
  wordReady : ∀ s written value, written.length < 5 → room written s → guard s
    (.writel fn ring.base (pcieRingDesc ring.curAvail ring.num + 4 * written.length) value)
  word : ∀ s written value reply s', written.length < 5 → room written s → M.answer s
    (.writel fn ring.base (pcieRingDesc ring.curAvail ring.num + 4 * written.length) value) reply
      s' → room (written ++ [value]) s'
  usedReady : ∀ s, room words s → guard s (.readl fn ring.base rhUsedOff)
  used : ∀ s value s', room words s → M.answer s (.readl fn ring.base rhUsedOff) value s' →
    sampled value s'
  publishReady : ∀ s value, sampled value s →
    guard s (.writel fn ring.base rhUsedOff (value + 1))
  publish : ∀ s value reply s', sampled value s →
    M.answer s (.writel fn ring.base rhUsedOff (value + 1)) reply s' → after s'

section Posts

variable {fn : RingFn} {ring : PcieRingCtx} {words : List (BitVec 32)} {before after : σ → Prop}
  {room : List (BitVec 32) → σ → Prop} {sampled : BitVec 32 → σ → Prop}

theorem PostSteps.wait_wp (steps : PostSteps M guard fn ring words before room sampled after)
    (t : Timing) {s : σ} (holds : before s) :
    M.wp guard (fun ret s' => (ret = 0 ∧ room [] s') ∨ (ret ≠ 0 ∧ before s'))
      (pcieRingWaitU32 t ring.base rhAvailOff ring.curAvail false 5000) s := by
  apply Machine.wp_mono (pcieRingWaitU32_wp steps.idles (steps.roomStable []) t ring.base
    rhAvailOff ring.curAvail false 5000 steps.availReady (fun s avail s' here read awaited => ?_)
    (fun s avail s' here read _ => steps.miss s avail s' here read) holds)
  · exact fun ret s' ended => nonzero_of_timeout ended
  · rw [if_neg (by decide)] at awaited
    exact steps.hit s avail s' here read awaited

/-- The next word of the descriptor. -/
theorem PostSteps.word_wp (steps : PostSteps M guard fn ring words before room sampled after)
    {α : Type} {post : α → σ → Prop} {next : Unit → Host α} (written : List (BitVec 32))
    {off : Nat} {value : BitVec 32} (place : off = 4 * written.length) (few : written.length < 5)
    (rest : ∀ s, room (written ++ [value]) s → M.wp guard post (next ()) s) {s : σ}
    (holds : room written s) :
    M.wp guard post
      (pcieRingW32 fn ring.base (pcieRingDesc ring.curAvail ring.num + off) value >>= next) s := by
  subst place
  apply Machine.wp_perform (steps.roomStable written) holds
  · intro s' here
    exact steps.wordReady s' written value few here
  · intro s' reply s'' here stored
    exact rest s'' (steps.word s' written value reply s'' few here stored)

/-- The five words of the descriptor. -/
theorem PostSteps.words_wp (steps : PostSteps M guard fn ring words before room sampled after)
    {α : Type} {post : α → σ → Prop} {rest : Host α} {cmd size addrLo addrHi blkid : BitVec 32}
    (descriptor : words = [cmd, size, addrLo, addrHi, blkid])
    (after' : ∀ s, room words s → M.wp guard post rest s) {s : σ} (holds : room [] s) :
    M.wp guard post
      (do
        pcieRingW32 fn ring.base (pcieRingDesc ring.curAvail ring.num + 0) cmd
        pcieRingW32 fn ring.base (pcieRingDesc ring.curAvail ring.num + 4) size
        pcieRingW32 fn ring.base (pcieRingDesc ring.curAvail ring.num + 8) addrLo
        pcieRingW32 fn ring.base (pcieRingDesc ring.curAvail ring.num + 12) addrHi
        pcieRingW32 fn ring.base (pcieRingDesc ring.curAvail ring.num + 16) blkid
        rest) s := by
  subst descriptor
  refine steps.word_wp [] rfl (by simp) (fun s₁ room₁ => ?_) holds
  refine steps.word_wp [cmd] rfl (by simp) (fun s₂ room₂ => ?_) room₁
  refine steps.word_wp [cmd, size] rfl (by simp) (fun s₃ room₃ => ?_) room₂
  refine steps.word_wp [cmd, size, addrLo] rfl (by simp) (fun s₄ room₄ => ?_) room₃
  exact steps.word_wp [cmd, size, addrLo, addrHi] rfl (by simp)
    (fun s₅ room₅ => after' s₅ room₅) room₄

/-- The read of `used` and the write that publishes. -/
theorem PostSteps.publish_wp (steps : PostSteps M guard fn ring words before room sampled after)
    {ring' : PcieRingCtx} {s : σ} (holds : room words s) :
    M.wp guard (fun posted s' => posted = (0, ring') ∧ after s')
      (do
        let used ← pcieRingR32 fn ring.base rhUsedOff
        pcieRingW32 fn ring.base rhUsedOff (used + 1)
        pure ((0 : Int), ring')) s := by
  apply Machine.wp_perform (steps.roomStable words) holds steps.usedReady
  intro s₁ used s₂ room₁ read
  apply Machine.wp_perform (steps.sampledStable used) (steps.used s₁ used s₂ room₁ read)
    fun s' here => steps.publishReady s' used here
  intro s₃ reply s₄ sampled₃ written
  exact Machine.wp_done steps.settled (steps.publish s₃ used reply s₄ sampled₃ written)
    fun _ here => ⟨rfl, here⟩

/-- A DATA post either fails in its wait, or copies its chunk and publishes its descriptor. -/
theorem pcieRingPostData_wp {csz : BitVec 32} {epAddr : BitVec 64} {chunk : List ByteMemory.Byte}
    (steps : PostSteps M guard .postData ring [ringCmdData, csz, epAddr.setWidth 32,
      (epAddr >>> 32).setWidth 32, ring.curBlk % ring.maxBlk] before room sampled after)
    (blockReady : ∀ s, room [ringCmdData, csz, epAddr.setWidth 32, (epAddr >>> 32).setWidth 32,
      ring.curBlk % ring.maxBlk] s → guard s (.memcpyToio .postData ring.base
        (pcieRingDataBlk (ring.curBlk % ring.maxBlk)) chunk))
    (block : ∀ s reply s', room [ringCmdData, csz, epAddr.setWidth 32, (epAddr >>> 32).setWidth 32,
      ring.curBlk % ring.maxBlk] s → M.answer s (.memcpyToio .postData ring.base
        (pcieRingDataBlk (ring.curBlk % ring.maxBlk)) chunk) reply s' →
      room [ringCmdData, csz, epAddr.setWidth 32, (epAddr >>> 32).setWidth 32,
        ring.curBlk % ring.maxBlk] s')
    (t : Timing) {s : σ} (holds : before s) :
    M.wp guard (fun posted s' => (posted = (0, ring.posted) ∧ after s') ∨
        (posted.1 ≠ 0 ∧ before s'))
      (pcieRingPostData t ring chunk csz epAddr) s := by
  apply Machine.wp_seq (steps.wait_wp t holds)
  intro ret s₁ waited
  rcases waited with ⟨zero, room₁⟩ | ⟨failed, here⟩
  · rw [if_neg (by simp [zero])]
    refine steps.words_wp rfl (fun s₂ room₂ => ?_) room₁
    apply Machine.wp_perform (steps.roomStable _) room₂ blockReady
    intro s₃ reply s₄ room₃ copied
    apply Machine.wp_mono (steps.publish_wp (block s₃ reply s₄ room₃ copied))
    exact fun posted s' result => Or.inl result
  · rw [if_pos failed]
    exact Machine.wp_done steps.idles.stable here fun _ here' => Or.inr ⟨failed, here'⟩

theorem pcieRingPostCmd_wp {cmd size : BitVec 32} {addr : BitVec 64}
    (steps : PostSteps M guard .postCmd ring [cmd, size, addr.setWidth 32,
      (addr >>> 32).setWidth 32, 0] before room sampled after)
    (t : Timing) {s : σ} (holds : before s) :
    M.wp guard (fun posted s' => (posted = (0, { ring with curAvail := ring.curAvail + 1 }) ∧
          after s') ∨ (posted.1 ≠ 0 ∧ before s'))
      (pcieRingPostCmd t ring cmd size addr) s := by
  apply Machine.wp_seq (steps.wait_wp t holds)
  intro ret s₁ waited
  rcases waited with ⟨zero, room₁⟩ | ⟨failed, here⟩
  · rw [if_neg (by simp [zero])]
    refine steps.words_wp rfl (fun s₂ room₂ => ?_) room₁
    apply Machine.wp_mono (steps.publish_wp room₂)
    exact fun posted s' result => Or.inl result
  · rw [if_pos failed]
    exact Machine.wp_done steps.idles.stable here fun _ here' => Or.inr ⟨failed, here'⟩

end Posts

/-- A ring function that hands on a context leaves the ring sound, and its context is in step with
the ring when it succeeds. -/
def HandsOn (sound : σ → Prop) (synced : PcieRingCtx → σ → Prop) (posted : Int × PcieRingCtx)
    (s : σ) : Prop :=
  sound s ∧ (posted.1 = 0 → synced posted.2 s)

section HandsOn

variable {sound : σ → Prop} {synced : PcieRingCtx → σ → Prop}

/-- A post that ends with the next context, or fails with the one it got. -/
theorem handsOn_of_posted (keeps : ∀ ring s, synced ring s → sound s) {ring ring' : PcieRingCtx}
    {posted : Int × PcieRingCtx} {s : σ}
    (result : (posted = (0, ring') ∧ synced ring' s) ∨ (posted.1 ≠ 0 ∧ synced ring s)) :
    HandsOn sound synced posted s := by
  rcases result with ⟨success, here⟩ | ⟨failed, here⟩
  · rw [success]
    exact ⟨keeps ring' s here, fun _ => here⟩
  · exact ⟨keeps ring s here, fun zero => absurd zero failed⟩

theorem handsOn_done {before : σ → Prop} (stable : M.Stable before)
    (keeps : ∀ s, before s → sound s) {ret : Int} (failed : ret ≠ 0) (ring : PcieRingCtx) {s : σ}
    (holds : before s) : M.wp guard (HandsOn sound synced) (.done (ret, ring)) s :=
  Machine.wp_done stable holds fun s' here => ⟨keeps s' here, fun zero => absurd zero failed⟩

end HandsOn

/-! Images -/

/-- The chunk loop, with an invariant that counts the chunks posted. The passes the model gives it
are never used up. -/
theorem pcieRingXferLoop_wp {post : Int × PcieRingCtx → σ → Prop}
    (t : Timing) (src dataLen loadAddr total : BitVec 64)
    (inv : Nat → PcieRingCtx → σ → Prop)
    (pass : ∀ chunk ring s, chunk < ringChunks total → inv chunk ring s →
      M.wp guard (fun posted s' =>
          if posted.1 ≠ 0 then M.wp guard post (.done posted) s'
          else inv (chunk + 1) posted.2 s')
        (ringChunkPass t src dataLen loadAddr total (ringPos total chunk) ring) s)
    (finish : ∀ ring s, inv (ringChunks total) ring s → M.wp guard post (.done (0, ring)) s)
    (passes : Nat) {chunk : Nat} {ring : PcieRingCtx} {s : σ}
    (enough : ringChunks total < passes + chunk) (inside : chunk ≤ ringChunks total)
    (holds : inv chunk ring s) :
    M.wp guard post
      (pcieRingXferLoop t src dataLen loadAddr total passes ring (ringPos total chunk)) s := by
  induction passes generalizing chunk ring s with
  | zero => omega
  | succ passes ih =>
      by_cases more : chunk < ringChunks total
      · rw [pcieRingXferLoop_succ t src dataLen loadAddr passes ring more]
        apply Machine.wp_seq (pass chunk ring s more holds)
        intro posted s' result
        split
        · rename_i failed
          rw [if_pos failed] at result
          exact result
        · rename_i zero
          rw [if_neg zero] at result
          exact ih (by omega) more result
      · have last : chunk = ringChunks total := by omega
        subst last
        rw [pcieRingXferLoop_end t src dataLen loadAddr passes ring (Nat.le_refl _)]
        exact finish ring s holds

/-- One image: an invariant on the chunks posted, and what is asked of each stage. -/
structure XferStages (M : Machine Op Op.Reply σ) (guard : σ → Op → Prop) (t : Timing)
    (base : Mapping) (ringMapSize userBase : BitVec 64) (img : FwImageDesc) (start : σ → Prop)
    (inv : Nat → PcieRingCtx → σ → Prop) (post : Int → σ → Prop) : Prop where
  startStable : M.Stable start
  stable : ∀ chunk ring, M.Stable (inv chunk ring)
  allocReady : ∀ s, start s → guard s (.kmalloc ringBlockSize)
  alloc : ∀ s reply s', start s → M.answer s (.kmalloc ringBlockSize) reply s' → start s'
  refused : ∀ s, start s → M.wp guard post (.done (-enomem)) s
  init : ∀ s, start s → M.wp guard (fun init s' =>
      if init.1 ≠ 0 then M.wp guard post (.done init.1) s' else inv 0 init.2 s')
    (pcieRingCtxInit base ringMapSize) s
  pass : ∀ chunk ring s, chunk < ringChunks (pcieRingXferTotal img.length) → inv chunk ring s →
    M.wp guard (fun posted s' =>
        if posted.1 ≠ 0 then M.wp guard post (.done posted.1) s' else inv (chunk + 1) posted.2 s')
      (ringChunkPass t (userBase + img.offset) img.length (pcieFwLoadAddr img.type)
        (pcieRingXferTotal img.length) (ringPos (pcieRingXferTotal img.length) chunk) ring) s
  close : ∀ ring s, inv (ringChunks (pcieRingXferTotal img.length)) ring s →
    M.wp guard (fun closed s' =>
        if closed.1 ≠ 0 then M.wp guard post (.done closed.1) s'
        else M.wp guard post (pcieRingXferPoll t base 5000) s')
      (pcieRingPostCmd t ring (pcieRingTail img.type img.length).1
        (pcieRingTail img.type img.length).2 (pcieFwLoadAddr img.type)) s

theorem XferStages.wp {t : Timing} {base : Mapping} {ringMapSize userBase : BitVec 64}
    {img : FwImageDesc} {start : σ → Prop} {inv : Nat → PcieRingCtx → σ → Prop}
    {post : Int → σ → Prop}
    (stages : XferStages M guard t base ringMapSize userBase img start inv post) {s : σ}
    (holds : start s) :
    M.wp guard post (pcieRingXferUser t base ringMapSize userBase img) s := by
  apply Machine.wp_perform stages.startStable holds stages.allocReady
  intro s₁ reply s₂ start₁ got
  have start₂ := stages.alloc s₁ reply s₂ start₁ got
  split
  · exact stages.refused s₂ start₂
  · apply Machine.wp_seq (stages.init s₂ start₂)
    rintro ⟨ret, ring⟩ s₃ ready
    dsimp only at ready ⊢
    by_cases failed : ret ≠ 0
    · rw [if_pos failed] at ready ⊢
      exact ready
    · rw [if_neg failed] at ready ⊢
      rw [← ringPos_zero (pcieRingXferTotal img.length)]
      have sent : M.wp guard (fun sent s' =>
          if sent.1 ≠ 0 then M.wp guard post (.done sent.1) s'
          else inv (ringChunks (pcieRingXferTotal img.length)) sent.2 s')
          (pcieRingXferLoop t (userBase + img.offset) img.length (pcieFwLoadAddr img.type)
            (pcieRingXferTotal img.length) (pcieRingPasses (pcieRingXferTotal img.length)) ring
            (ringPos (pcieRingXferTotal img.length) 0)) s₃ := by
        refine pcieRingXferLoop_wp t _ img.length _ _ inv ?_ ?_ _ ?_ (Nat.zero_le _) ready
        · intro chunk ring s inside here
          apply Machine.wp_mono (stages.pass chunk ring s inside here)
          intro posted s' result
          by_cases failed : posted.1 ≠ 0
          · rw [if_pos failed] at result ⊢
            intro s'' moved
            rw [if_pos failed]
            exact Machine.wp_drift result moved
          · rw [if_neg failed] at result ⊢
            exact result
        · intro ring s here s' moved
          rw [if_neg (by simp)]
          exact (stages.stable _ ring).drift here moved
        · exact ringChunks_lt_passes _
      apply Machine.wp_seq sent
      rintro ⟨ret, ring⟩ s₄ result
      dsimp only at result ⊢
      by_cases failed : ret ≠ 0
      · rw [if_pos failed] at result ⊢
        exact result
      · rw [if_neg failed] at result ⊢
        apply Machine.wp_seq (stages.close ring s₄ result)
        rintro ⟨ret, ring⟩ s₅ tail
        dsimp only at tail ⊢
        by_cases failed : ret ≠ 0
        · rw [if_pos failed] at tail ⊢
          exact tail
        · rw [if_neg failed] at tail ⊢
          exact tail

/-- What fills the bounce buffer at a position: bytes that `copy_from_user` has fetched, if any of
the image is left there, and zeroes up to the chunk's size. -/
def ChunkBytes (fetched : BitVec 64 → List ByteMemory.Byte → Prop)
    (src dataLen epPos : BitVec 64) (csz : BitVec 32) (chunk : List ByteMemory.Byte) : Prop :=
  (dataLen ≤ epPos ∧ chunk = List.replicate csz.toNat 0) ∨
    (epPos < dataLen ∧ ∃ bytes, fetched src bytes ∧
      bytes.length = min csz.toNat (dataLen - epPos).toNat ∧
      chunk = bytes ++ List.replicate (csz.toNat - bytes.length) 0)

theorem ChunkBytes.length {fetched : BitVec 64 → List ByteMemory.Byte → Prop}
    {src dataLen epPos : BitVec 64} {csz : BitVec 32} {chunk : List ByteMemory.Byte}
    (filled : ChunkBytes fetched src dataLen epPos csz chunk) : chunk.length = csz.toNat := by
  rcases filled with ⟨-, rfl⟩ | ⟨-, bytes, -, size, rfl⟩
  · simp
  · simp only [List.length_append, List.length_replicate]
    omega

theorem pcieRingFillChunk_wp {before : σ → Prop} (stable : M.Stable before)
    (fetched : BitVec 64 → List ByteMemory.Byte → Prop) (src dataLen epPos : BitVec 64)
    (csz : BitVec 32)
    (ready : ∀ s length, before s → guard s (.copyFromUser src length))
    (kept : ∀ s length reply s', before s → M.answer s (.copyFromUser src length) reply s' →
      before s' ∧ ∀ bytes, reply = some bytes → fetched src bytes.toList)
    {s : σ} (holds : before s) :
    M.wp guard (fun filled s' => before s' ∧
        ∀ chunk, filled = some chunk → ChunkBytes fetched src dataLen epPos csz chunk)
      (pcieRingFillChunk src dataLen epPos csz) s := by
  unfold pcieRingFillChunk
  split
  · rename_i beyond
    refine Machine.wp_done stable holds fun s' here => ?_
    refine ⟨here, ?_⟩
    rintro _ ⟨⟩
    exact Or.inl ⟨beyond, rfl⟩
  · rename_i within
    apply Machine.wp_perform stable holds fun s' here => ready s' _ here
    intro s₁ reply s₂ before₁ copied
    obtain ⟨before₂, image⟩ := kept s₁ _ reply s₂ before₁ copied
    cases reply with
    | none =>
        refine Machine.wp_done stable before₂ fun s' here => ?_
        exact ⟨here, fun _ impossible => nomatch impossible⟩
    | some bytes =>
        refine Machine.wp_done stable before₂ fun s' here => ?_
        refine ⟨here, ?_⟩
        rintro _ ⟨⟩
        refine Or.inr ⟨?_, bytes.toList, image bytes rfl, ?_, ?_⟩
        · exact BitVec.not_le.mp within
        · simp
        · simp

section HandsOn

variable {sound : σ → Prop} {synced : PcieRingCtx → σ → Prop}

/-- A pass of the loop, when its post hands the context on. -/
theorem ringChunkPass_handsOn {ring : PcieRingCtx} (stable : M.Stable (synced ring))
    (keeps : ∀ s, synced ring s → sound s) (t : Timing)
    (src dataLen loadAddr total epPos : BitVec 64)
    (ready : ∀ s length, synced ring s → guard s (.copyFromUser (src + epPos) length))
    (kept : ∀ s length reply s', synced ring s →
      M.answer s (.copyFromUser (src + epPos) length) reply s' → synced ring s')
    (post : ∀ bytes s, synced ring s → M.wp guard (HandsOn sound synced)
      (pcieRingPostData t ring bytes (pcieRingChunkSize total epPos) (loadAddr + epPos)) s)
    {s : σ} (holds : synced ring s) :
    M.wp guard (HandsOn sound synced)
      (ringChunkPass t src dataLen loadAddr total epPos ring) s := by
  apply Machine.wp_seq (pcieRingFillChunk_wp stable (fun _ _ => True) (src + epPos) dataLen epPos
    (pcieRingChunkSize total epPos) ready
    (fun s' length reply s'' here copied =>
      ⟨kept s' length reply s'' here copied, fun _ _ => trivial⟩) holds)
  intro filled s' bounce
  cases filled with
  | none => exact handsOn_done stable keeps (show -efault ≠ 0 by decide) ring bounce.1
  | some bytes => exact post bytes s' bounce.1

/-- An image whose ring functions hand the context on leaves the ring sound. -/
theorem XferStages.of_handsOn {t : Timing} {base : Mapping} {ringMapSize userBase : BitVec 64}
    {img : FwImageDesc} {start : σ → Prop} (startStable : M.Stable start)
    (soundStable : M.Stable sound) (syncedStable : ∀ ring, M.Stable (synced ring))
    (starts : ∀ s, start s → sound s)
    (allocReady : ∀ s, start s → guard s (.kmalloc ringBlockSize))
    (alloc : ∀ s reply s', start s → M.answer s (.kmalloc ringBlockSize) reply s' → start s')
    (init : ∀ s, start s →
      M.wp guard (HandsOn sound synced) (pcieRingCtxInit base ringMapSize) s)
    (pass : ∀ src dataLen loadAddr total epPos ring s, synced ring s →
      M.wp guard (HandsOn sound synced) (ringChunkPass t src dataLen loadAddr total epPos ring) s)
    (close : ∀ cmd size addr ring s, synced ring s →
      M.wp guard (HandsOn sound synced) (pcieRingPostCmd t ring cmd size addr) s)
    (poll : ∀ s, sound s → M.wp guard (fun _ => sound) (pcieRingXferPoll t base 5000) s) :
    XferStages M guard t base ringMapSize userBase img start (fun _ => synced)
      (fun _ => sound) where
  startStable := startStable
  stable _ := syncedStable
  allocReady := allocReady
  alloc := alloc
  refused s here := Machine.wp_done soundStable (starts s here) fun _ here' => here'
  init s here := by
    apply Machine.wp_mono (init s here)
    intro init s' next
    split
    · exact Machine.wp_done soundStable next.1 fun _ here' => here'
    · rename_i zero
      exact next.2 (Decidable.not_not.mp zero)
  pass chunk ring s _ here := by
    apply Machine.wp_mono (pass _ _ _ _ _ ring s here)
    intro posted s' next
    split
    · exact Machine.wp_done soundStable next.1 fun _ here' => here'
    · rename_i zero
      exact next.2 (Decidable.not_not.mp zero)
  close ring s here := by
    apply Machine.wp_mono (close _ _ _ ring s here)
    intro closed s' next
    split
    · exact Machine.wp_done soundStable next.1 fun _ here' => here'
    · exact poll s' next.1

end HandsOn

end AmbaPci

import AmbaPci.RingCounters
import AmbaPci.RingRuns
import AmbaPci.XferRules

set_option autoImplicit false

/- Attempts to send the firmware, one after the other on the same slot, each of which may stop half
way: whether a new attempt spares the descriptors an earlier one has left in the ring. -/
namespace AmbaPci

open Interaction Interaction.Machine

/-- Attempts on one slot, whatever the earlier ones have returned. -/
def pcieXferAttempts : List (Timing × FwXfer) → Entry → Host Entry
  | [], e => pure e
  | (t, req) :: rest, e => do
      let (_, e) ← pcieIoctlXferFirmware t req e
      pcieXferAttempts rest e

/-- The operation writes no slot whose descriptor is published and unconsumed, neither with a word
of a descriptor nor with the bytes of a data block. -/
def SparesInFlight (num : BitVec 32) (s : RingCounters) : Op → Prop
  | .writel fn _ off _ => fn = .postData ∨ fn = .postCmd → ∀ slot, s.InFlight num slot →
      off < rhDesc0Off + slot * 20 ∨ rhDesc0Off + slot * 20 + 20 ≤ off
  | .memcpyToio _ _ off bytes => ∀ slot, s.InFlight num slot →
      off + bytes.length ≤ rhDesc0Off + slot * 20 ∨ rhDesc0Off + slot * 20 + 20 ≤ off
  | _ => True

/-- The ring is safe at a step: at most `num` descriptors are unconsumed, and the operation that is
called next spares them. -/
def RingSafe (num : BitVec 32) (s : RingCounters) (op : Op) : Prop :=
  s.pending num ≤ num.toNat ∧ SparesInFlight num s op

/-- `pcie_ring_ctx_init` reads `avail` only while the ring is idle. -/
def IdleAtInit (num : BitVec 32) (s : RingCounters) : Op → Prop
  | .readl .ctxInit _ off => off = rhAvailOff → s.Idle num
  | _ => True

abbrev idleInitMachine (num : BitVec 32) : Machine Op Op.Reply RingCounters :=
  (counterMachine num).restrict (IdleAtInit num)

/-! What one access does -/

section Access

variable {num : BitVec 32}

/-- At most `num` descriptors are unconsumed. -/
def RingBounded (num : BitVec 32) (s : RingCounters) : Prop := s.pending num ≤ num.toNat

/-- The context agrees with the counters: the next position is `used`. -/
structure CtxSynced (num : BitVec 32) (ring : PcieRingCtx) (s : RingCounters) : Prop where
  bounded : RingBounded num s
  maxBlk : 0 < ring.maxBlk.toNat
  curAvail : ring.curAvail = s.used
  num : ring.num = num

/-- The same, with a free slot. -/
def CtxRoom (num : BitVec 32) (ring : PcieRingCtx) (s : RingCounters) : Prop :=
  CtxSynced num ring s ∧ s.pending num < num.toNat

theorem RingBounded.consumes {s s' : RingCounters} (bounded : RingBounded num s)
    (consumed : RingCounters.Consumes num s s') : RingBounded num s' := by
  have less := consumed.pending
  unfold RingBounded at bounded ⊢
  omega

theorem CtxSynced.consumes {ring : PcieRingCtx} {s s' : RingCounters}
    (synced : CtxSynced num ring s) (consumed : RingCounters.Consumes num s s') :
    CtxSynced num ring s' where
  num := synced.num
  maxBlk := synced.maxBlk
  curAvail := by
    rw [consumed.2]
    exact synced.curAvail
  bounded := synced.bounded.consumes consumed

theorem ringBounded_stable : (idleInitMachine num).Stable (RingBounded num) :=
  fun _ _ bounded consumed => bounded.consumes consumed

theorem ctxSynced_stable (ring : PcieRingCtx) :
    (idleInitMachine num).Stable (CtxSynced num ring) :=
  fun _ _ synced consumed => synced.consumes consumed

theorem ctxRoom_stable (ring : PcieRingCtx) : (idleInitMachine num).Stable (CtxRoom num ring) := by
  intro s s' room consumed
  have less := consumed.pending
  have few := room.2
  exact ⟨room.1.consumes consumed, by omega⟩

/-- Only a write to `used` moves the counters. -/
theorem idleInit_kept {s s' : RingCounters} {op : Op} {reply : op.Reply}
    (answered : (idleInitMachine num).answer s op reply s')
    (other : ∀ fn base value, op ≠ .writel fn base rhUsedOff value) : s' = s := by
  have answer := answered.2
  cases op with
  | readl fn base off => exact answer.1
  | writel fn base off value =>
      have apart : off ≠ rhUsedOff := fun same => other fn base value (by rw [same])
      exact Eq.trans answer (if_neg apart)
  | _ => exact answer

theorem idleInit_quiet {s s' : RingCounters} {op : Op} {reply : op.Reply}
    (answered : (idleInitMachine num).answer s op reply s') (quiet : op.Quiet) : s' = s := by
  apply idleInit_kept answered
  rintro fn base value rfl
  exact quiet

theorem ringSafe_quiet {s : RingCounters} {op : Op} (quiet : op.Quiet)
    (bounded : RingBounded num s) : RingSafe num s op := by
  refine ⟨bounded, ?_⟩
  cases op with
  | writel fn base off value => exact absurd quiet id
  | memcpyToio fn base off bytes => exact absurd quiet id
  | _ => exact trivial

theorem idleInit_idles {before : RingCounters → Prop} (stable : (idleInitMachine num).Stable before)
    (bounded : ∀ s, before s → RingBounded num s) :
    Idles (idleInitMachine num) (RingSafe num) before where
  stable := stable
  jiffiesReady s here := ringSafe_quiet trivial (bounded s here)
  jiffies _ _ _ here clock := by rwa [idleInit_quiet clock trivial]
  sleepReady s here := ringSafe_quiet trivial (bounded s here)
  sleep _ _ _ here slept := by rwa [idleInit_quiet slept trivial]
  spinReady s here := ringSafe_quiet trivial (bounded s here)

end Access

/-! What one post does -/

section Post

variable {num : BitVec 32}

/-- The wait for `avail` to leave `cur_avail` ends with a free slot. -/
theorem ctxRoom_of_awaited {base : Mapping} {ring : PcieRingCtx} {avail : BitVec 32}
    {s s' : RingCounters} (synced : CtxSynced num ring s)
    (read : (idleInitMachine num).answer s (.readl .waitU32 base rhAvailOff) avail s')
    (awaited : avail ≠ ring.curAvail) : CtxRoom num ring s' := by
  have same := idleInit_quiet read (readl_quiet (by decide))
  have value : avail = s.avail := read.2.2.2.1 rfl
  subst same
  refine ⟨synced, ?_⟩
  have bound := synced.bounded
  have apart : s'.pending num ≠ num.toNat := by
    intro full
    rw [value, synced.curAvail] at awaited
    exact awaited (RingCounters.pending_eq_num_iff.mp full)
  unfold RingBounded at bound
  omega

/-- A word of the next descriptor goes into a free slot. -/
theorem writeSlot_safe (divides : num.toNat ∣ 2 ^ 32) {fn : RingFn} {base : Mapping}
    {ring : PcieRingCtx} {off : Nat} {value : BitVec 32} {s : RingCounters} (inside : off ≤ 16)
    (room : CtxRoom num ring s) :
    RingSafe num s (.writel fn base (pcieRingDesc ring.curAvail ring.num + off) value) := by
  refine ⟨room.1.bounded, fun _ slot busy => ?_⟩
  have free := RingCounters.slot_free divides room.2
  have other : slot ≠ (s.used % num).toNat := by
    intro same
    rw [same] at busy
    exact free busy
  rw [room.1.curAvail, room.1.num, pcieRingDesc]
  omega

/-- The write of `used` publishes the descriptor. -/
theorem ctxSynced_publish {fn : RingFn} {base : Mapping} {ring ring' : PcieRingCtx}
    {used : BitVec 32} {reply : Unit} {s s' : RingCounters} (sampled : used = ring.curAvail)
    (room : CtxRoom num ring s)
    (next : ring'.num = ring.num ∧ ring'.maxBlk = ring.maxBlk ∧
      ring'.curAvail = ring.curAvail + 1)
    (written : (idleInitMachine num).answer s (.writel fn base rhUsedOff (used + 1)) reply s') :
    CtxSynced num ring' s' := by
  obtain ⟨sameNum, sameBlk, nextAvail⟩ := next
  have there : s' = { s with used := used + 1 } := written.2
  have published : s' = s.publish := by
    rw [there, sampled, room.1.curAvail]
    rfl
  have count := RingCounters.publish_pending room.2
  have few := room.2
  refine ⟨?_, ?_, ?_, ?_⟩
  · unfold RingBounded
    rw [published, count]
    omega
  · rw [sameBlk]
    exact room.1.maxBlk
  · rw [nextAvail, room.1.curAvail, published]
    rfl
  · rw [sameNum]
    exact room.1.num

/-- The steps of a post, by a context in step with the counters. -/
theorem retry_posts (divides : num.toNat ∣ 2 ^ 32) {fn : RingFn} (other : fn ≠ .ctxInit)
    (ring ring' : PcieRingCtx) (words : List (BitVec 32))
    (next : ring'.num = ring.num ∧ ring'.maxBlk = ring.maxBlk ∧
      ring'.curAvail = ring.curAvail + 1) :
    PostSteps (idleInitMachine num) (RingSafe num) fn ring words (CtxSynced num ring)
      (fun _ => CtxRoom num ring) (fun used s => used = ring.curAvail ∧ CtxRoom num ring s)
      (CtxSynced num ring') where
  idles := idleInit_idles (ctxSynced_stable ring) fun _ here => here.bounded
  roomStable _ := ctxRoom_stable ring
  sampledStable _ s s' here moved := ⟨here.1, ctxRoom_stable ring s s' here.2 moved⟩
  settled := ctxSynced_stable ring'
  availReady _ here := ringSafe_quiet (readl_quiet (by decide)) here.bounded
  hit _ _ _ synced read awaited := ctxRoom_of_awaited synced read awaited
  miss _ _ _ synced read := by rwa [idleInit_quiet read (readl_quiet (by decide))]
  wordReady _ written _ few room := writeSlot_safe divides (by omega) room
  word s written value reply s' _ room stored := by
    have high : pcieRingDesc ring.curAvail ring.num + 4 * written.length ≠ rhUsedOff := by
      unfold pcieRingDesc rhDesc0Off rhUsedOff
      omega
    rw [idleInit_kept stored fun _ _ _ same => high (Op.writel.inj same).2.2.1]
    exact room
  usedReady _ room := ringSafe_quiet (readl_quiet other) room.1.bounded
  used s value s' room read := by
    have value' : value = s.used := read.2.2.1 rfl
    rw [idleInit_quiet read (readl_quiet other)]
    exact ⟨value'.trans room.1.curAvail.symm, room⟩
  publishReady s value here := by
    refine ⟨here.2.1.bounded, fun _ slot _ => Or.inl ?_⟩
    unfold rhUsedOff rhDesc0Off
    omega
  publish _ _ _ _ here written := ctxSynced_publish here.1 here.2 next written

/-- A block lies behind the slots. -/
theorem memcpyToio_safe (layout : rhDesc0Off + num.toNat * 20 ≤ ringBlockSize)
    {ring : PcieRingCtx} {s : RingCounters} (room : CtxRoom num ring s) (fn : RingFn)
    (base : Mapping) (blkid : BitVec 32) (bytes : List ByteMemory.Byte) :
    RingSafe num s (.memcpyToio fn base (pcieRingDataBlk (blkid % ring.maxBlk)) bytes) := by
  refine ⟨room.1.bounded, fun slot busy => Or.inr ?_⟩
  obtain ⟨index, before, rfl⟩ := busy
  have positive : 0 < num.toNat := Nat.zero_lt_of_lt room.2
  have behind := dataBlk_ge ring.maxBlk blkid room.1.maxBlk
  have below : (ringIndex (s.avail - num) index % num).toNat < num.toNat := by
    rw [BitVec.toNat_umod]
    exact Nat.mod_lt _ positive
  unfold ringBlockSize at layout
  omega

theorem pcieRingPostData_safe (divides : num.toNat ∣ 2 ^ 32)
    (layout : rhDesc0Off + num.toNat * 20 ≤ ringBlockSize) (t : Timing) {ring : PcieRingCtx}
    (bytes : List ByteMemory.Byte) (csz : BitVec 32) (epAddr : BitVec 64) {s : RingCounters}
    (holds : CtxSynced num ring s) :
    (idleInitMachine num).wp (RingSafe num)
      (HandsOn (RingBounded num) (CtxSynced num)) (pcieRingPostData t ring bytes csz epAddr) s := by
  have other : RingFn.postData ≠ .ctxInit := by decide
  have steps := retry_posts divides other ring ring.posted
  apply wp_mono (pcieRingPostData_wp (steps _ ⟨rfl, rfl, rfl⟩) ?_ ?_ t holds)
  · exact fun posted s' result => handsOn_of_posted (fun _ _ here => here.bounded) result
  · exact fun s' room => memcpyToio_safe layout room .postData ring.base ring.curBlk bytes
  · intro s₁ reply s₂ room copied
    rwa [idleInit_kept copied nofun]

theorem pcieRingPostCmd_safe (divides : num.toNat ∣ 2 ^ 32) (t : Timing) {ring : PcieRingCtx}
    (cmd size : BitVec 32) (addr : BitVec 64) {s : RingCounters} (holds : CtxSynced num ring s) :
    (idleInitMachine num).wp (RingSafe num)
      (HandsOn (RingBounded num) (CtxSynced num)) (pcieRingPostCmd t ring cmd size addr) s := by
  have other : RingFn.postCmd ≠ .ctxInit := by decide
  have steps := retry_posts divides other ring { ring with curAvail := ring.curAvail + 1 }
  apply wp_mono (pcieRingPostCmd_wp (steps _ ⟨rfl, rfl, rfl⟩) t holds)
  exact fun posted s' result => handsOn_of_posted (fun _ _ here => here.bounded) result

/-! Whole attempts -/

/-- A new context agrees with the counters when it is set up on an idle ring. -/
theorem pcieRingCtxInit_synced (base : Mapping) (size : BitVec 64) {s : RingCounters}
    (holds : RingBounded num s) :
    (idleInitMachine num).wp (RingSafe num) (HandsOn (RingBounded num) (CtxSynced num))
      (pcieRingCtxInit base size) s := by
  have refuse : ∀ s, RingBounded num s → (idleInitMachine num).wp (RingSafe num)
      (HandsOn (RingBounded num) (CtxSynced num)) (.done (-einval, {})) s :=
    fun s here => handsOn_done ringBounded_stable (fun _ here' => here')
      (show -einval ≠ 0 by decide) {} here
  apply wp_perform ringBounded_stable holds fun s' here => ⟨here, trivial⟩
  intro s₁ n s₂ bounded₁ readNum
  have sameNum : n = num := readNum.2.2.2.2 rfl
  rw [idleInit_kept readNum nofun]
  apply wp_perform ringBounded_stable bounded₁ fun s' here => ⟨here, trivial⟩
  intro s₃ m s₄ bounded₃ readMaxBlk
  rw [idleInit_kept readMaxBlk nofun]
  split
  · exact refuse s₃ bounded₃
  · rename_i nonzero
    split
    · exact refuse s₃ bounded₃
    · apply wp_perform ringBounded_stable bounded₃ fun s' here => ⟨here, trivial⟩
      intro s₅ a s₆ bounded₅ readAvail
      have idle : s₅.Idle num := readAvail.1 rfl
      have value : a = s₅.avail := readAvail.2.2.2.1 rfl
      rw [idleInit_kept readAvail nofun]
      have positive : 0 < m.toNat :=
        BitVec.toNat_pos_of_ne_zero fun zero => nonzero (Or.inr zero)
      have position : a - n = s₅.used := by
        rw [value, sameNum, RingCounters.idle_iff.mp idle]
      exact wp_done (ctxSynced_stable _) ⟨bounded₅, positive, position, sameNum⟩
        fun s' here => ⟨here.bounded, fun _ => here⟩

theorem ringChunkPass_safe (divides : num.toNat ∣ 2 ^ 32)
    (layout : rhDesc0Off + num.toNat * 20 ≤ ringBlockSize) (t : Timing)
    (src dataLen loadAddr total epPos : BitVec 64) {ring : PcieRingCtx} {s : RingCounters}
    (holds : CtxSynced num ring s) :
    (idleInitMachine num).wp (RingSafe num) (HandsOn (RingBounded num) (CtxSynced num))
      (ringChunkPass t src dataLen loadAddr total epPos ring) s :=
  ringChunkPass_handsOn (ctxSynced_stable ring) (fun _ here => here.bounded) t src dataLen
    loadAddr total epPos (fun _ _ here => ⟨here.bounded, trivial⟩)
    (fun _ _ _ _ here copied => by rwa [idleInit_kept copied nofun])
    (fun bytes _ here => pcieRingPostData_safe divides layout t bytes _ _ here) holds

theorem ringBounded_pollReads (base : Mapping) :
    PollReads (idleInitMachine num) (RingSafe num) base (RingBounded num)
      (fun _ => RingBounded num) (fun _ _ => RingBounded num) (RingBounded num) where
  usedStable _ := ringBounded_stable
  numStable _ _ := ringBounded_stable
  settled := ringBounded_stable
  usedReady s here := ringSafe_quiet (readl_quiet (by decide)) here
  readUsed s u s' here read := by rwa [idleInit_kept read nofun]
  numReady _ s here := ringSafe_quiet (readl_quiet (by decide)) here
  readNum u s n s' here read := by rwa [idleInit_kept read nofun]
  availReady _ _ s here := ringSafe_quiet (readl_quiet (by decide)) here
  idle u n s a s' here read _ := by rwa [idleInit_kept read nofun]
  busy u n s a s' here read _ := by rwa [idleInit_kept read nofun]

theorem pcieRingXferPoll_safe (t : Timing) (base : Mapping) {s : RingCounters}
    (holds : RingBounded num s) :
    (idleInitMachine num).wp (RingSafe num) (fun _ => RingBounded num)
      (pcieRingXferPoll t base 5000) s := by
  apply wp_mono (pcieRingXferPoll_wp (idleInit_idles ringBounded_stable fun _ here => here)
    (ringBounded_pollReads base) t 5000 holds)
  intro ret s' result
  rcases result with ⟨-, here⟩ | ⟨-, here⟩
  · exact here
  · exact here

theorem retry_stages (divides : num.toNat ∣ 2 ^ 32)
    (layout : rhDesc0Off + num.toNat * 20 ≤ ringBlockSize) (t : Timing) (base : Mapping)
    (ringMapSize userBase : BitVec 64) (img : FwImageDesc) :
    XferStages (idleInitMachine num) (RingSafe num) t base ringMapSize userBase img
      (RingBounded num) (fun _ => CtxSynced num) (fun _ => RingBounded num) :=
  .of_handsOn ringBounded_stable ringBounded_stable ctxSynced_stable (fun _ here => here)
    (fun _ here => ringSafe_quiet trivial here)
    (fun _ _ _ here allocated => by rwa [idleInit_quiet allocated trivial])
    (fun _ here => pcieRingCtxInit_synced base ringMapSize here)
    (fun src dataLen loadAddr total epPos _ _ here =>
      ringChunkPass_safe divides layout t src dataLen loadAddr total epPos here)
    (fun cmd size addr _ _ here => pcieRingPostCmd_safe divides t cmd size addr here)
    (fun _ here => pcieRingXferPoll_safe t base here)

theorem xferImages_safe (divides : num.toNat ∣ 2 ^ 32)
    (layout : rhDesc0Off + num.toNat * 20 ≤ ringBlockSize) (t : Timing) (base : Mapping)
    (ringMapSize : BitVec 64) (req : FwXfer) (types : List (BitVec 32)) {s : RingCounters}
    (holds : RingBounded num s) :
    (idleInitMachine num).wp (RingSafe num) (fun _ => RingBounded num)
      (xferImages t base ringMapSize req types) s := by
  induction types generalizing s with
  | nil => exact wp_done ringBounded_stable holds fun _ here => here
  | cons type rest ih =>
      unfold xferImages
      split
      · exact wp_call ringBounded_stable holds (fun s' here => ringSafe_quiet trivial here)
          fun _ impossible => nomatch impossible
      · apply wp_seq
          ((retry_stages divides layout t base ringMapSize req.fwUserPtr _).wp holds)
        intro ret s' here
        split
        · exact wp_done ringBounded_stable here fun _ here' => here'
        · exact ih here

/-- Every attempt keeps the ring safe, whether it succeeds or stops half way. -/
theorem pcieXferAttempts_safe (divides : num.toNat ∣ 2 ^ 32)
    (layout : rhDesc0Off + num.toNat * 20 ≤ ringBlockSize) (attempts : List (Timing × FwXfer))
    (e : Entry) {s : RingCounters} (holds : RingBounded num s) :
    (idleInitMachine num).wp (RingSafe num) (fun _ => RingBounded num)
      (pcieXferAttempts attempts e) s := by
  induction attempts generalizing e s with
  | nil => exact wp_done ringBounded_stable holds fun _ here => here
  | cons attempt rest ih =>
      obtain ⟨t, req⟩ := attempt
      have sent : (idleInitMachine num).wp (RingSafe num) (fun _ => RingBounded num)
          (pcieIoctlXferFirmware t req e) s := by
        unfold pcieIoctlXferFirmware
        split
        · exact pcieXferFirmwareLocked_wp (fun _ => RingBounded num) ringBounded_stable
            (fun s op prepares here => ringSafe_quiet prepares.quiet here)
            (fun s op reply s' prepares here answered => by
              rwa [idleInit_quiet answered prepares.quiet])
            (fun _ _ _ here => here)
            (fun base ringMapSize s here =>
              xferImages_safe divides layout t base ringMapSize req pcieFwXferOrder here) holds
        · exact wp_done ringBounded_stable holds fun _ here => here
      apply wp_seq sent
      intro result s' here
      exact ih result.2 here

end Post

/-- In every run of any attempts that starts on an idle ring, at most `num` descriptors are
unconsumed in every state, and no operation writes the slot of one. -/
def RetrySafe (num : BitVec 32) (M : Machine Op Op.Reply RingCounters) : Prop :=
  ∀ (attempts : List (Timing × FwXfer)) (e : Entry) (s : RingCounters), s.Idle num →
    ∀ (program : Host Entry) (s' : RingCounters),
      M.Steps (pcieXferAttempts attempts e, s) (program, s') →
        s'.pending num ≤ num.toNat ∧
          ∀ op next, program = .call op next → SparesInFlight num s' op

/-- The attempts are safe when the slots end before the first block, and each context is set up on
an idle ring. -/
theorem ring_retry_safe (num : BitVec 32) (exponent : Nat) (power : num.toNat = 2 ^ exponent)
    (layout : rhDesc0Off + num.toNat * 20 ≤ ringBlockSize) :
    RetrySafe num (idleInitMachine num) := by
  have divides : num.toNat ∣ 2 ^ 32 := by
    have bound := num.isLt
    rw [power] at bound ⊢
    exact Nat.pow_dvd_pow 2 (Nat.le_of_lt ((Nat.pow_lt_pow_iff_right (by decide)).mp bound))
  intro attempts e s idle program s' run
  have start : RingBounded num s := by
    unfold RingBounded
    rw [idle.pending]
    exact Nat.zero_le _
  have here := wp_steps (pcieXferAttempts_safe divides layout attempts e start) run
  cases program with
  | done value => exact ⟨here s' .refl, nofun⟩
  | call op next =>
      have safe := (here s' .refl).1
      refine ⟨safe.1, ?_⟩
      rintro op' next' ⟨⟩
      exact safe.2

theorem ring_retry_safe_two : RetrySafe 2 (idleInitMachine 2) :=
  ring_retry_safe 2 1 (by decide) (by decide)

/-! A retry on a ring that is not idle -/

/-- Every wait succeeds at once, and one address of user memory faults. -/
def counterDriver (num : BitVec 32) (fault : BitVec 64) :
    Driver Op Op.Reply RingCounters Unit where
  answer s op :=
    match op with
    | .readl _ _ off =>
        some (if off = rhUsedOff then s.used else if off = rhAvailOff then s.avail
          else if off = rhNumOff then num else if off = rhMaxBlkOff then 16
          else if off = rhMagicOff then ringMagic else ringStateOnline, s)
    | .writel _ _ off value => some ((), if off = rhUsedOff then { s with used := value } else s)
    | .copyFromUser src length =>
        some (if src = fault then none else some (Vector.replicate length 0), s)
    | .jiffies => some ((0 : BitVec 64), s)
    | .kmalloc _ => some (true, s)
    | .memcpyToio _ _ _ _ => some ((), s)
    | .pciSetMaster _ => some ((), s)
    | _ => none
  interfere _ s := if s.used ≠ s.avail - num then some { s with avail := s.avail + 1 } else none

theorem counterDriver_sound (num : BitVec 32) (fault : BitVec 64) :
    (counterDriver num fault).Sound (counterMachine num) where
  answer := by
    intro s op reply s' answered
    cases op with
    | readl fn base off =>
        cases answered
        refine ⟨rfl, ?_, ?_, ?_⟩
        · intro same
          rw [if_pos same]
        · intro same
          rw [same, if_neg (by decide), if_pos rfl]
        · intro same
          rw [same, if_neg (by decide), if_neg (by decide), if_pos rfl]
    | writel fn base off value =>
        cases answered
        rfl
    | copyFromUser src length =>
        cases answered
        rfl
    | jiffies =>
        cases answered
        rfl
    | kmalloc size =>
        cases answered
        rfl
    | memcpyToio fn base off bytes =>
        cases answered
        rfl
    | pciSetMaster pdev =>
        cases answered
        rfl
    | _ => cases answered
  interfere := by
    intro _ s s' moved
    simp only [counterDriver, Option.ite_none_right_eq_some] at moved
    obtain ⟨more, same⟩ := moved
    cases same
    exact ⟨more, rfl⟩

/-- A DTB of two chunks, and two small images. -/
def twoChunkRequest : FwXfer where
  slotId := 0
  fwSize := 0x10000
  fwUserPtr := 0x1000
  images := #v[⟨ambaPciFwImageDtb, 0, 1024⟩, ⟨ambaPciFwImageRootfs, 1024, 16⟩,
    ⟨ambaPciFwImageKernel, 1040, 16⟩]

/-- Two attempts on a ring of two slots. The copy of the second chunk faults in the first attempt,
and the endpoint has consumed nothing when the second one comes to its first word. -/
def retriedRun : Option (Host Entry × RingCounters) :=
  (counterDriver 2 0x1200).run (List.replicate 39 none)
    (pcieXferAttempts [(onePoll, twoChunkRequest), (onePoll, twoChunkRequest)] readyEntry, ⟨0, 2⟩)

/-- It is about to write slot 0, whose descriptor is published and unconsumed. -/
theorem retriedRun_ends :
    ∃ next, retriedRun = some (.call (.writel .postData 0 80 1) next, ⟨1, 2⟩) := by
  have ends : (retriedRun.map fun c => (c.1.nextOp, c.2)) =
      some (some (.writel .postData 0 80 1), ⟨1, 2⟩) := by decide +kernel
  obtain ⟨⟨program, s⟩, found, same⟩ := Option.map_eq_some_iff.mp ends
  obtain ⟨first, second⟩ := Prod.mk.inj same
  dsimp only at first second
  subst second
  cases program with
  | done value => cases first
  | call op next =>
      cases first
      exact ⟨next, found⟩

theorem ring_retry_safe_interrupted :
    ¬ ∀ (num : BitVec 32) (exponent : Nat), num.toNat = 2 ^ exponent →
      RetrySafe num (counterMachine num) := by
  intro safe
  obtain ⟨next, ran⟩ := retriedRun_ends
  have run := (counterDriver_sound 2 0x1200).steps _ _ _ ran
  have spares := (safe 2 1 (by decide) _ readyEntry ⟨0, 2⟩ (by decide) _ _ run).2 _ next rfl
  have apart := spares (Or.inl rfl) 0 ⟨0, by decide, by decide⟩
  revert apart
  decide

end AmbaPci

import AmbaPci.RingRuns
import AmbaPci.RingTraffic

set_option autoImplicit false

/- Runs of the transfer of one image with an endpoint that stops consuming. -/
namespace AmbaPci

open ByteMemory (Byte)
open Interaction Interaction.Machine

variable {user : BitVec 64 → Byte} {num maxBlk origin : BitVec 32} {img : FwImageDesc}
  {post : Nat → PostedDesc}

/-- The ring between two posts, with the position of the endpoint. -/
def RingedAt (num origin : BitVec 32) (post : Nat → PostedDesc) (posted consumed : Nat)
    (s : RingTraffic) : Prop :=
  s.written = [] ∧ InRing num origin post posted consumed s

theorem waitAvail_canReturn (base : Mapping) {want : BitVec 32} {s : RingTraffic}
    (apart : s.counters.avail ≠ want) :
    (trafficMachine user num maxBlk).CanReturn (fun ret s' => ret = 0 ∧ s' = s)
      (pcieRingWaitU32 onePoll base rhAvailOff want false 5000) s :=
  pcieRingWaitU32_still base rhAvailOff (by rwa [if_neg (by decide)]) rfl
    ⟨rfl, nofun, fun _ => rfl, nofun, nofun⟩

/-- A machine that hands out the bytes of user space without moving fills the bounce buffer. -/
theorem pcieRingFillChunk_still {σ : Type} {M : Machine Op Op.Reply σ} {s : σ}
    (user : BitVec 64 → Byte) (src dataLen epPos : BitVec 64) (csz : BitVec 32)
    (copies : ∀ length (bytes : Vector Byte length), bytes.toList = userBytes user src length →
      M.answer s (.copyFromUser src length) (some bytes) s) :
    M.CanReturn (fun filled s' => s' = s ∧ ∃ chunk, filled = some chunk ∧
        ChunkBytes (fun source bytes => bytes = userBytes user source bytes.length) src dataLen
          epPos csz chunk)
      (pcieRingFillChunk src dataLen epPos csz) s := by
  unfold pcieRingFillChunk
  split
  · rename_i beyond
    exact canReturn_done ⟨rfl, _, rfl, Or.inl ⟨beyond, rfl⟩⟩
  · rename_i within
    have fetched : (userBytes user src (min csz.toNat (dataLen - epPos).toNat)).length =
        min csz.toNat (dataLen - epPos).toNat := userBytes_length _ _ _
    refine canReturn_perform
      (some ⟨(userBytes user src (min csz.toNat (dataLen - epPos).toNat)).toArray, by simp⟩)
      (copies _ _ rfl) (canReturn_done ⟨rfl, _, rfl, Or.inr ⟨BitVec.not_le.mp within, _, ?_,
        fetched, ?_⟩⟩)
    · show _ = userBytes user src _
      rw [fetched]
    · rw [fetched]
      rfl

/-- The write of a descriptor word is recorded. -/
theorem word_answer (s : RingTraffic) (fn : RingFn) (base : Mapping) (curAvail n : BitVec 32)
    (offset : Nat) (value : BitVec 32) :
    (trafficMachine user num maxBlk).answer s
      (.writel fn base (pcieRingDesc curAvail n + offset) value) ()
      (s.write (pcieRingDesc curAvail n + offset) value) := by
  have high : pcieRingDesc curAvail n + offset ≠ rhUsedOff := by
    unfold pcieRingDesc rhDesc0Off rhUsedOff
    omega
  exact (if_neg high).symm

/-- A chunk is posted while the endpoint stands still. -/
theorem pcieRingPostData_at {chunk consumed : Nat} {ring : PcieRingCtx}
    (ctx : TrafficCtx num maxBlk origin chunk ring) (bytes : List Byte) {csz : BitVec 32}
    {epAddr : BitVec 64} {s : RingTraffic} (holds : RingedAt num origin post chunk consumed s)
    (room : chunk < consumed + num.toNat) (command : (post chunk).cmd = ringCmdData)
    (block : (post chunk).blkid = ring.curBlk % ring.maxBlk)
    (place : (post chunk).off = pcieRingDesc ring.curAvail ring.num) :
    (trafficMachine user num maxBlk).CanReturn
      (fun posted s' =>
        posted = (0, ring.posted) ∧ RingedAt num origin post (chunk + 1) consumed s')
      (pcieRingPostData onePoll ring bytes csz epAddr) s := by
  obtain ⟨empty, here⟩ := holds
  have apart : s.counters.avail ≠ ring.curAvail := ctx.curAvail ▸ here.avail_ne room
  apply canReturn_seq (waitAvail_canReturn ring.base apart)
  rintro ret s₁ ⟨zero, same⟩
  rw [if_neg (by simp [zero]), same]
  refine canReturn_perform () (word_answer s .postData ring.base _ _ 0 ringCmdData) ?_
  refine canReturn_perform () (word_answer _ .postData ring.base _ _ 4 csz) ?_
  refine canReturn_perform () (word_answer _ .postData ring.base _ _ 8 _) ?_
  refine canReturn_perform () (word_answer _ .postData ring.base _ _ 12 _) ?_
  refine canReturn_perform () (word_answer _ .postData ring.base _ _ 16 _) ?_
  refine canReturn_perform () rfl ?_
  refine canReturn_perform s.counters.used ⟨rfl, fun _ => rfl, nofun, nofun, nofun⟩ ?_
  refine canReturn_perform () (if_pos rfl).symm (canReturn_done ⟨rfl, rfl, ?_⟩)
  refine InRing.publish ?_ room ringCmdData csz (epAddr.setWidth 32) ((epAddr >>> 32).setWidth 32)
    (ring.curBlk % ring.maxBlk) ?_ command block rfl
  · exact here.congr rfl rfl
  · simp only [RingTraffic.write, empty, place]
    rfl

theorem pcieRingFillChunk_traffic (src dataLen epPos : BitVec 64) (csz : BitVec 32)
    (s : RingTraffic) :
    (trafficMachine user num maxBlk).CanReturn
      (fun filled s' => s' = s ∧ ∃ bytes, filled = some bytes ∧ bytes.length = csz.toNat)
      (pcieRingFillChunk src dataLen epPos csz) s := by
  refine canReturn_mono (pcieRingFillChunk_still user src dataLen epPos csz
    (fun length bytes image => ⟨rfl, ?_⟩)) ?_
  · rintro _ ⟨⟩
    exact image
  · rintro _ s' ⟨same, chunk, rfl, filled⟩
    exact ⟨same, chunk, rfl, filled.length⟩

theorem ringChunkPass_at (userBase : BitVec 64) {chunk consumed : Nat}
    (inside : chunk < ringChunks (pcieRingXferTotal img.length)) {ring : PcieRingCtx}
    (ctx : TrafficCtx num maxBlk origin chunk ring) {s : RingTraffic}
    (holds : RingedAt num origin (imagePost num maxBlk origin img) chunk consumed s)
    (room : chunk < consumed + num.toNat) :
    (trafficMachine user num maxBlk).CanReturn
      (fun posted s' => posted = (0, ring.posted) ∧
        RingedAt num origin (imagePost num maxBlk origin img) (chunk + 1) consumed s')
      (ringChunkPass onePoll (userBase + img.offset) img.length (pcieFwLoadAddr img.type)
        (pcieRingXferTotal img.length) (ringPos (pcieRingXferTotal img.length) chunk) ring) s := by
  apply canReturn_seq (pcieRingFillChunk_traffic _ img.length _ _ s)
  rintro _ s' ⟨same, bytes, rfl, -⟩
  rw [same]
  refine pcieRingPostData_at ctx bytes holds room (imagePost_chunk inside).1 ?_ ?_
  · rw [(imagePost_chunk inside).2, ctx.curBlk, ctx.maxBlk]
  · rw [ctx.curAvail, ctx.num]
    rfl

/-- The endpoint consumes once more. -/
theorem RingedAt.consume {posted consumed : Nat} {s : RingTraffic}
    (holds : RingedAt num origin post posted consumed s) (maxBlk : BitVec 32)
    (more : consumed < posted) :
    (trafficMachine user num maxBlk).Drift s s.consume ∧
      RingedAt num origin post posted (consumed + 1) s.consume := by
  obtain ⟨empty, here⟩ := holds
  have left : s.counters.used ≠ s.counters.avail - num := by
    rw [here.used, here.avail, BitVec.add_sub_cancel]
    intro same
    have bounded := here.bounded
    have bound := num.isLt
    have wrapped := ringIndex_inj same.symm (Nat.le_of_lt more) (by omega)
    omega
  exact ⟨.single ⟨left, rfl⟩, empty, (here.consume left).2⟩

/-- The transfer with an endpoint that keeps up until it has consumed `last` descriptors. -/
structure SlowRing (num maxBlk origin : BitVec 32) (img : FwImageDesc) (last chunk : Nat)
    (ring : PcieRingCtx) (s : RingTraffic) : Prop where
  ctx : TrafficCtx num maxBlk origin chunk ring
  ringed : RingedAt num origin (imagePost num maxBlk origin img) chunk (min chunk last) s

theorem SlowRing.pass (userBase : BitVec 64) {last chunk : Nat} {ring : PcieRingCtx}
    {s : RingTraffic} (positive : 0 < num.toNat) (near : chunk < last + num.toNat)
    (inside : chunk < ringChunks (pcieRingXferTotal img.length))
    (here : SlowRing num maxBlk origin img last chunk ring s) :
    (trafficMachine user num maxBlk).CanReturn
      (fun posted s' => posted.1 = 0 ∧ SlowRing num maxBlk origin img last (chunk + 1) posted.2 s')
      (ringChunkPass onePoll (userBase + img.offset) img.length (pcieFwLoadAddr img.type)
        (pcieRingXferTotal img.length) (ringPos (pcieRingXferTotal img.length) chunk) ring) s := by
  apply canReturn_drift (ringChunkPass_at userBase inside here.ctx here.ringed (by omega))
  rintro posted s' ⟨rfl, ringed⟩
  by_cases early : chunk < last
  · have oldest : min chunk last = chunk := by omega
    have next : min (chunk + 1) last = chunk + 1 := by omega
    rw [oldest] at ringed
    obtain ⟨moved, consumed⟩ := ringed.consume maxBlk (Nat.lt_succ_self chunk)
    refine ⟨s'.consume, moved, rfl, here.ctx.next, ?_⟩
    rw [next]
    exact consumed
  · have same : min (chunk + 1) last = min chunk last := by omega
    refine ⟨s', .refl, rfl, here.ctx.next, ?_⟩
    rw [same]
    exact ringed

theorem SlowRing.init {ringMapSize : BitVec 64} (accepted : RingAccepts num maxBlk ringMapSize)
    (base : Mapping) (last : Nat) {s : RingTraffic} (idle : s.Idle num) :
    (trafficMachine user num maxBlk).CanReturn
      (fun init s' => init.1 = 0 ∧ SlowRing num maxBlk s.counters.used img last 0 init.2 s')
      (pcieRingCtxInit base ringMapSize) s := by
  obtain ⟨nonzeroNum, nonzeroBlk, test⟩ := accepted
  have positive : ¬ (num = 0 ∨ maxBlk = 0) := fun zero => zero.elim nonzeroNum nonzeroBlk
  refine canReturn_perform num ⟨rfl, nofun, nofun, fun _ => rfl, nofun⟩ ?_
  refine canReturn_perform maxBlk ⟨rfl, nofun, nofun, nofun, fun _ => rfl⟩ ?_
  rw [if_neg positive, if_neg (by simp [test])]
  refine canReturn_perform s.counters.avail ⟨rfl, nofun, fun _ => rfl, nofun, nofun⟩ ?_
  refine canReturn_done ⟨rfl, ⟨rfl, rfl, ?_, rfl⟩, idle.written, ?_⟩
  · show s.counters.avail - num = _
    rw [ringIndex_zero, RingCounters.idle_iff.mp idle.counters]
  · rw [Nat.zero_min]
    exact .empty idle

/-- The first word of the next descriptor, with the descriptors that are in the ring then. -/
def WritesDesc (num origin : BitVec 32) (post : Nat → PostedDesc) (posted consumed : Nat)
    (s : RingTraffic) (op : Op) : Prop :=
  InRing num origin post posted consumed s ∧
    ∃ fn base value, op = .writel fn base (pcieRingDesc (ringIndex origin posted) num + 0) value

/-- The copy of the next chunk, when its descriptor is written. -/
def CopiesChunk (num maxBlk origin : BitVec 32) (img : FwImageDesc) (chunk consumed : Nat)
    (s : RingTraffic) (op : Op) : Prop :=
  (∃ size addrLo addrHi, Drafting num origin (imagePost num maxBlk origin img) chunk consumed
      [ringCmdData, size, addrLo, addrHi, BitVec.ofNat 32 chunk % maxBlk] s) ∧
    ∃ base bytes, op = .memcpyToio .postData base
        (pcieRingDataBlk (BitVec.ofNat 32 chunk % maxBlk)) bytes ∧
      bytes.length = ringChunkLen (pcieRingXferTotal img.length) chunk

variable {last : Nat} {ring : PcieRingCtx} {s : RingTraffic}

/-- Before a descriptor's first word, the endpoint can stand still. -/
theorem SlowRing.waited {index : Nat} (here : SlowRing num maxBlk origin img last index ring s)
    (positive : 0 < num.toNat) (near : index < last + num.toNat) :
    (trafficMachine user num maxBlk).CanReturn (fun ret s' => ret = 0 ∧ s' = s)
      (pcieRingWaitU32 onePoll ring.base rhAvailOff ring.curAvail false 5000) s :=
  waitAvail_canReturn ring.base
    (here.ctx.curAvail ▸ here.ringed.2.avail_ne (by omega))

theorem SlowRing.pass_writes (userBase : BitVec 64) {chunk : Nat}
    (here : SlowRing num maxBlk origin img last chunk ring s) (positive : 0 < num.toNat)
    (near : chunk < last + num.toNat) :
    (trafficMachine user num maxBlk).CanCall
      (WritesDesc num origin (imagePost num maxBlk origin img) chunk (min chunk last))
      (ringChunkPass onePoll (userBase + img.offset) img.length (pcieFwLoadAddr img.type)
        (pcieRingXferTotal img.length) (ringPos (pcieRingXferTotal img.length) chunk) ring) s := by
  apply canCall_seq (pcieRingFillChunk_traffic _ img.length _ _ s)
  rintro _ s' ⟨same, bytes, rfl, -⟩
  rw [same]
  apply canCall_seq (here.waited positive near)
  rintro ret s₁ ⟨zero, same⟩
  rw [if_neg (by simp [zero]), same]
  refine canCall_here ⟨here.ringed.2, .postData, ring.base, ringCmdData, ?_⟩
  rw [here.ctx.curAvail, here.ctx.num]

/-- The five words of a chunk's descriptor are written one after the other. -/
theorem SlowRing.drafted {chunk : Nat} (here : SlowRing num maxBlk origin img last chunk ring s)
    (positive : 0 < num.toNat) (near : chunk < last + num.toNat)
    (size addrLo addrHi : BitVec 32) :
    Drafting num origin (imagePost num maxBlk origin img) chunk (min chunk last)
      [ringCmdData, size, addrLo, addrHi, BitVec.ofNat 32 chunk % maxBlk]
      (((((s.write (pcieRingDesc ring.curAvail ring.num + 0) ringCmdData).write
        (pcieRingDesc ring.curAvail ring.num + 4) size).write
        (pcieRingDesc ring.curAvail ring.num + 8) addrLo).write
        (pcieRingDesc ring.curAvail ring.num + 12) addrHi).write
        (pcieRingDesc ring.curAvail ring.num + 16) (ring.curBlk % ring.maxBlk)) where
  written := by
    simp only [RingTraffic.write, here.ringed.1, here.ctx.curAvail, here.ctx.num, here.ctx.curBlk,
      here.ctx.maxBlk]
    rfl
  room := by omega
  ring := here.ringed.2.congr rfl rfl

theorem SlowRing.pass_copies (userBase : BitVec 64) {chunk : Nat}
    (here : SlowRing num maxBlk origin img last chunk ring s) (positive : 0 < num.toNat)
    (near : chunk < last + num.toNat)
    (inside : chunk < ringChunks (pcieRingXferTotal img.length)) :
    (trafficMachine user num maxBlk).CanCall
      (CopiesChunk num maxBlk origin img chunk (min chunk last))
      (ringChunkPass onePoll (userBase + img.offset) img.length (pcieFwLoadAddr img.type)
        (pcieRingXferTotal img.length) (ringPos (pcieRingXferTotal img.length) chunk) ring) s := by
  apply canCall_seq (pcieRingFillChunk_traffic _ img.length _ _ s)
  rintro _ s' ⟨same, bytes, rfl, filled⟩
  rw [same]
  apply canCall_seq (here.waited positive near)
  rintro ret s₁ ⟨zero, same⟩
  rw [if_neg (by simp [zero]), same]
  refine canCall_perform () (word_answer s .postData ring.base _ _ 0 ringCmdData) ?_
  refine canCall_perform () (word_answer _ .postData ring.base _ _ 4 _) ?_
  refine canCall_perform () (word_answer _ .postData ring.base _ _ 8 _) ?_
  refine canCall_perform () (word_answer _ .postData ring.base _ _ 12 _) ?_
  refine canCall_perform () (word_answer _ .postData ring.base _ _ 16 _) ?_
  refine canCall_here ⟨⟨_, _, _, here.drafted positive near _ _ _⟩, ring.base, bytes, ?_, ?_⟩
  · rw [here.ctx.curBlk, here.ctx.maxBlk]
  · rw [filled, pcieRingChunkSize_toNat inside]

theorem SlowRing.command_writes {index : Nat}
    (here : SlowRing num maxBlk origin img last index ring s) (positive : 0 < num.toNat)
    (near : index < last + num.toNat) (cmd size : BitVec 32) (addr : BitVec 64) :
    (trafficMachine user num maxBlk).CanCall
      (WritesDesc num origin (imagePost num maxBlk origin img) index (min index last))
      (pcieRingPostCmd onePoll ring cmd size addr) s := by
  apply canCall_seq (here.waited positive near)
  rintro ret s₁ ⟨zero, same⟩
  rw [if_neg (by simp [zero]), same]
  refine canCall_here ⟨here.ringed.2, .postCmd, ring.base, cmd, ?_⟩
  rw [here.ctx.curAvail, here.ctx.num]

variable {ringMapSize : BitVec 64} {wanted : RingTraffic → Op → Prop}

/-- The transfer comes to any chunk that is less than `num` posts ahead of where the endpoint
stops. -/
theorem traffic_reaches_chunk (accepted : RingAccepts num maxBlk ringMapSize)
    (idle : s.Idle num) (last : Nat) (base : Mapping) (userBase : BitVec 64) {aim : Nat}
    (inside : aim < ringChunks (pcieRingXferTotal img.length)) (near : aim < last + num.toNat)
    (call : ∀ ring s', SlowRing num maxBlk s.counters.used img last aim ring s' →
      (trafficMachine user num maxBlk).CanCall wanted
        (ringChunkPass onePoll (userBase + img.offset) img.length (pcieFwLoadAddr img.type)
          (pcieRingXferTotal img.length) (ringPos (pcieRingXferTotal img.length) aim) ring) s') :
    (trafficMachine user num maxBlk).CanCall wanted
      (pcieRingXferUser onePoll base ringMapSize userBase img) s := by
  have positive := BitVec.toNat_pos_of_ne_zero accepted.1
  refine pcieRingXferUser_reaches (SlowRing num maxBlk s.counters.used img last) base ringMapSize
    userBase img inside ⟨s, rfl⟩ ?_ ?_ call
  · intro s' allocated
    have same : s' = s := allocated
    rw [same]
    exact SlowRing.init accepted base last idle
  · intro chunk ring s' before here
    exact here.pass userBase positive (by omega) (by omega)

theorem traffic_reaches_command (accepted : RingAccepts num maxBlk ringMapSize)
    (idle : s.Idle num) (last : Nat) (base : Mapping) (userBase : BitVec 64)
    (near : ringChunks (pcieRingXferTotal img.length) < last + num.toNat)
    (call : ∀ ring s', SlowRing num maxBlk s.counters.used img last
      (ringChunks (pcieRingXferTotal img.length)) ring s' →
      (trafficMachine user num maxBlk).CanCall wanted
        (pcieRingPostCmd onePoll ring (pcieRingTail img.type img.length).1
          (pcieRingTail img.type img.length).2 (pcieFwLoadAddr img.type)) s') :
    (trafficMachine user num maxBlk).CanCall wanted
      (pcieRingXferUser onePoll base ringMapSize userBase img) s := by
  have positive := BitVec.toNat_pos_of_ne_zero accepted.1
  refine pcieRingXferUser_reachesCmd (SlowRing num maxBlk s.counters.used img last) base
    ringMapSize userBase img ⟨s, rfl⟩ ?_ ?_ call
  · intro s' allocated
    have same : s' = s := allocated
    rw [same]
    exact SlowRing.init accepted base last idle
  · intro chunk ring s' inside here
    exact here.pass userBase positive (by omega) inside

end AmbaPci

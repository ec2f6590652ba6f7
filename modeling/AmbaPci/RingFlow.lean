import AmbaPci.RingCounters

set_option autoImplicit false

/- What the two registers of the ring say of the descriptors in it. Beside the bytes of the BAR
stand the numbers of descriptors that have been published and consumed, which no register holds. -/
namespace AmbaPci

open ByteMemory
open Interaction Interaction.Machine

/-- `sampled` is what the last sample of `avail` in `pcie_ring_wait_u32` has found unconsumed. -/
structure RingFlow where
  bar : Memory
  published : Nat
  consumed : Nat
  sampled : Option Nat

namespace RingFlow

def used (s : RingFlow) : BitVec 32 := load32 s.bar rhUsedOff
def avail (s : RingFlow) : BitVec 32 := load32 s.bar rhAvailOff
def num (s : RingFlow) : BitVec 32 := load32 s.bar rhNumOff

def counters (s : RingFlow) : RingCounters := ⟨s.used, s.avail⟩

def unconsumed (s : RingFlow) : Nat := s.published - s.consumed

/-- The ring is idle, by its registers and in fact. -/
structure Idle (s : RingFlow) : Prop where
  registers : s.used + s.num = s.avail
  consumed : s.consumed = s.published

/-- A write to `used` publishes a descriptor. -/
def write (s : RingFlow) (off : Nat) (value : BitVec 32) : RingFlow :=
  { s with
    bar := store32 s.bar off value
    published := if off = rhUsedOff then s.published + 1 else s.published }

def sample (s : RingFlow) : RingFlow := { s with sampled := some s.unconsumed }

/-- The two headers read the same. -/
def SameHeader (s s' : RingFlow) : Prop := ∀ cell < rhDesc0Off, s'.bar cell = s.bar cell

end RingFlow

/-- The endpoint: all it does to the header is to add 1 to `avail`, and that only while a published
descriptor is unconsumed. Behind the header it may write anything. -/
inductive ConsumerStep : RingFlow → RingFlow → Prop
  | elsewhere (s : RingFlow) (bar : Memory)
      (header : ∀ cell < rhDesc0Off, bar cell = s.bar cell) : ConsumerStep s { s with bar }
  | consume (s : RingFlow) (bar : Memory) (more : s.consumed < s.published)
      (header : ∀ cell < rhDesc0Off, bar cell = store32 s.bar rhAvailOff (s.avail + 1) cell) :
      ConsumerStep s { s with bar, consumed := s.consumed + 1 }

/-- The accesses of the host; the clock, the allocator and user memory answer anything. A block is
copied in one step: whatever the endpoint does meanwhile it can also do right after it, since no
block lies in the header. -/
def flowAnswer (s : RingFlow) : (op : Op) → op.Reply → RingFlow → Prop
  | .readl fn _ off, value, s' =>
      value = load32 s.bar off ∧ s' = if fn = .waitU32 ∧ off = rhAvailOff then s.sample else s
  | .writel _ _ off value, _, s' => s' = s.write off value
  | .memcpyToio _ _ off bytes, _, s' => s' = { s with bar := storeBytes s.bar off bytes }
  | _, _, s' => s' = s

def flowMachine : Machine Op Op.Reply RingFlow where
  answer := flowAnswer
  interfere := ConsumerStep

/-! The header -/

section Header

variable {s s' : RingFlow}

theorem RingFlow.SameHeader.load (same : s.SameHeader s') {off : Nat} (low : off ≤ 20) :
    load32 s'.bar off = load32 s.bar off := by
  apply load32_congr
  intro index inside
  have below : off + index < rhDesc0Off := by
    unfold rhDesc0Off
    omega
  exact same _ below

theorem RingFlow.SameHeader.used (same : s.SameHeader s') : s'.used = s.used :=
  same.load (by decide)

theorem RingFlow.SameHeader.avail (same : s.SameHeader s') : s'.avail = s.avail :=
  same.load (by decide)

theorem RingFlow.SameHeader.num (same : s.SameHeader s') : s'.num = s.num :=
  same.load (by decide)

theorem RingFlow.SameHeader.counters (same : s.SameHeader s') : s'.counters = s.counters := by
  unfold RingFlow.counters
  rw [same.used, same.avail]

/-- A word of a descriptor lies behind the header. -/
theorem RingFlow.write_sameHeader {off : Nat} (value : BitVec 32) (high : rhDesc0Off ≤ off) :
    s.SameHeader (s.write off value) := by
  intro cell low
  exact store32_outside _ _ _ _ (by omega)

theorem RingFlow.write_published {off : Nat} (value : BitVec 32) (high : rhDesc0Off ≤ off) :
    (s.write off value).published = s.published := by
  have other : off ≠ rhUsedOff := by
    unfold rhDesc0Off at high
    unfold rhUsedOff
    omega
  exact if_neg other

/-- So does a data block. -/
theorem RingFlow.copy_sameHeader (s : RingFlow) {off : Nat} (bytes : List Byte)
    (high : rhDesc0Off ≤ off) :
    s.SameHeader { s with bar := storeBytes s.bar off bytes } := by
  intro cell low
  exact storeBytes_outside _ _ _ _ (by omega)

theorem RingFlow.publish_counters (s : RingFlow) :
    (s.write rhUsedOff (s.used + 1)).counters = s.counters.publish := by
  have used : (s.write rhUsedOff (s.used + 1)).used = s.used + 1 := load32_store32_same _ _ _
  have avail : (s.write rhUsedOff (s.used + 1)).avail = s.avail :=
    load32_store32_apart _ _ _ _ (by decide)
  unfold RingFlow.counters RingCounters.publish
  rw [used, avail]

theorem RingFlow.publish_num (s : RingFlow) (value : BitVec 32) :
    (s.write rhUsedOff value).num = s.num :=
  load32_store32_apart _ _ _ _ (by decide)

/-- What the header shows of a step of the endpoint. -/
theorem ConsumerStep.effect (moved : ConsumerStep s s') :
    s'.published = s.published ∧ s'.sampled = s.sampled ∧
      (s.SameHeader s' ∧ s'.consumed = s.consumed ∨
        s.consumed < s.published ∧ s'.consumed = s.consumed + 1 ∧ s'.num = s.num ∧
          s'.used = s.used ∧ s'.avail = s.avail + 1) := by
  cases moved with
  | elsewhere bar header => exact ⟨rfl, rfl, Or.inl ⟨header, rfl⟩⟩
  | consume bar more header =>
      have counted : RingFlow.SameHeader
          { s with bar := store32 s.bar rhAvailOff (s.avail + 1) }
          { s with bar, consumed := s.consumed + 1 } := header
      refine ⟨rfl, rfl, Or.inr ⟨more, rfl, ?_, ?_, ?_⟩⟩
      · exact counted.num.trans (load32_store32_apart _ _ _ _ (by decide))
      · exact counted.used.trans (load32_store32_apart _ _ _ _ (by decide))
      · exact counted.avail.trans (load32_store32_same _ _ _)

end Header

/-! The counts and the registers -/

/-- The registers count the unconsumed descriptors, of which there are at most `num`. -/
structure FlowInv (num : BitVec 32) (s : RingFlow) : Prop where
  numReg : s.num = num
  count : s.published = s.consumed + s.counters.pending num
  few : s.counters.pending num ≤ num.toNat

section Invariant

variable {num : BitVec 32} {s s' : RingFlow}

theorem FlowInv.unconsumed (holds : FlowInv num s) : s.unconsumed = s.counters.pending num := by
  have count := holds.count
  unfold RingFlow.unconsumed
  omega

theorem FlowInv.of_idle (idle : s.Idle) (same : s.num = num) : FlowInv num s := by
  have rest : s.counters.Idle num := by
    rw [← same]
    exact idle.registers
  have none := rest.pending
  have consumed := idle.consumed
  exact ⟨same, by omega, by omega⟩

/-- Nothing is unconsumed exactly when the ring is idle by its registers. -/
theorem FlowInv.idle (holds : FlowInv num s) (registers : s.used + num = s.avail) : s.Idle := by
  have rest : s.counters.Idle num := registers
  have none := rest.pending
  have count := holds.count
  refine ⟨?_, by omega⟩
  rw [holds.numReg]
  exact registers

theorem FlowInv.congr (holds : FlowInv num s) (same : s.SameHeader s')
    (published : s'.published = s.published) (consumed : s'.consumed = s.consumed) :
    FlowInv num s' where
  numReg := same.num.trans holds.numReg
  count := by
    rw [published, consumed, same.counters]
    exact holds.count
  few := by
    rw [same.counters]
    exact holds.few

/-- A step of the endpoint keeps the count exact, and never adds to it. -/
theorem FlowInv.consumes (holds : FlowInv num s) (moved : ConsumerStep s s') :
    FlowInv num s' ∧ s'.used = s.used ∧ s'.counters.pending num ≤ s.counters.pending num := by
  obtain ⟨published, -, header | ⟨more, consumed, sameNum, used, avail⟩⟩ := moved.effect
  · have same := header.1.counters
    exact ⟨holds.congr header.1 published header.2, header.1.used, Nat.le_of_eq (by rw [same])⟩
  · have count := holds.count
    have few := holds.few
    have counters : s'.counters = { s.counters with avail := s.counters.avail + 1 } := by
      unfold RingFlow.counters
      rw [used, avail]
    have left : s.counters.used ≠ s.counters.avail - num := by
      intro same
      have none := RingCounters.pending_eq_zero_iff.mpr same
      omega
    have less := RingCounters.Consumes.pending ⟨left, counters⟩
    exact ⟨⟨sameNum.trans holds.numReg, by omega, by omega⟩, used, by omega⟩

/-- With room for a descriptor, publishing it keeps the count exact. -/
theorem FlowInv.publish (holds : FlowInv num s) (room : s.counters.pending num < num.toNat) :
    FlowInv num (s.write rhUsedOff (s.used + 1)) := by
  have more := RingCounters.publish_pending room
  have count := holds.count
  have published : (s.write rhUsedOff (s.used + 1)).published = s.published + 1 := by
    simp [RingFlow.write]
  have consumed : (s.write rhUsedOff (s.used + 1)).consumed = s.consumed := rfl
  rw [← s.publish_counters] at more
  exact ⟨(s.publish_num _).trans holds.numReg, by omega, by omega⟩

theorem flowInv_stable (num : BitVec 32) : flowMachine.Stable (FlowInv num) :=
  fun _ _ holds moved => (holds.consumes moved).1

theorem idle_stable : flowMachine.Stable fun s => s.Idle ∧ s.num = num := by
  intro s s' here moved
  obtain ⟨published, -, header | ⟨more, -⟩⟩ := moved.effect
  · have same := header.1
    have consumed := here.1.consumed
    refine ⟨⟨?_, by omega⟩, same.num.trans here.2⟩
    rw [same.used, same.num, same.avail]
    exact here.1.registers
  · have none := here.1.consumed
    omega

end Invariant

/-- The context agrees with the registers: the next position is `used`. -/
structure CtxFlow (num : BitVec 32) (ring : PcieRingCtx) (s : RingFlow) : Prop where
  inv : FlowInv num s
  num : ring.num = num
  maxBlk : 0 < ring.maxBlk.toNat
  curAvail : ring.curAvail = s.used

/-- The same, with a free slot. -/
def FlowRoom (num : BitVec 32) (ring : PcieRingCtx) (s : RingFlow) : Prop :=
  CtxFlow num ring s ∧ s.counters.pending num < num.toNat

/-- The last sample has found room. -/
def SampledRoom (num : BitVec 32) (s : RingFlow) : Prop :=
  ∃ count, s.sampled = some count ∧ count < num.toNat

section Context

variable {num : BitVec 32} {ring : PcieRingCtx} {s s' : RingFlow}

theorem CtxFlow.congr (holds : CtxFlow num ring s) (same : s.SameHeader s')
    (published : s'.published = s.published) (consumed : s'.consumed = s.consumed) :
    CtxFlow num ring s' where
  inv := holds.inv.congr same published consumed
  num := holds.num
  maxBlk := holds.maxBlk
  curAvail := by
    rw [same.used]
    exact holds.curAvail

theorem FlowRoom.congr (room : FlowRoom num ring s) (same : s.SameHeader s')
    (published : s'.published = s.published) (consumed : s'.consumed = s.consumed) :
    FlowRoom num ring s' := by
  refine ⟨room.1.congr same published consumed, ?_⟩
  rw [same.counters]
  exact room.2

/-- To sample changes neither the registers nor the counts. -/
theorem CtxFlow.sample (holds : CtxFlow num ring s) : CtxFlow num ring s.sample :=
  holds.congr (fun _ _ => rfl) rfl rfl

theorem ctxFlow_stable (num : BitVec 32) (ring : PcieRingCtx) :
    flowMachine.Stable (CtxFlow num ring) := by
  intro s s' holds moved
  obtain ⟨inv, used, -⟩ := holds.inv.consumes moved
  exact ⟨inv, holds.num, holds.maxBlk, holds.curAvail.trans used.symm⟩

theorem flowRoom_stable (num : BitVec 32) (ring : PcieRingCtx) :
    flowMachine.Stable (FlowRoom num ring) := by
  intro s s' room moved
  have less := (room.1.inv.consumes moved).2.2
  have few := room.2
  exact ⟨ctxFlow_stable num ring s s' room.1 moved, by omega⟩

theorem sampledRoom_stable (num : BitVec 32) : flowMachine.Stable (SampledRoom num) := by
  intro s s' sampled moved
  have same := moved.effect.2.1
  unfold SampledRoom at sampled ⊢
  rw [same]
  exact sampled

theorem notSampledRoom_stable (num : BitVec 32) :
    flowMachine.Stable fun s => ¬ SampledRoom num s := by
  intro s s' sampled moved
  have same := moved.effect.2.1
  unfold SampledRoom at sampled ⊢
  rw [same]
  exact sampled

/-- The sample that `avail` has left `cur_avail` is a sample of a free slot. -/
theorem CtxFlow.avail_ne_iff (holds : CtxFlow num ring s) :
    s.avail ≠ ring.curAvail ↔ s.unconsumed < num.toNat := by
  have few := holds.inv.few
  rw [holds.curAvail, holds.inv.unconsumed]
  have full : s.counters.pending num = num.toNat ↔ s.avail = s.used :=
    RingCounters.pending_eq_num_iff
  constructor
  · intro apart
    have more : s.counters.pending num ≠ num.toNat := fun all => apart (full.mp all)
    omega
  · intro room same
    have all := full.mpr same
    omega

theorem sampledRoom_sample : SampledRoom num s.sample ↔ s.unconsumed < num.toNat := by
  unfold SampledRoom
  constructor
  · intro sampled
    obtain ⟨count, same, room⟩ := sampled
    cases same
    exact room
  · intro room
    exact ⟨s.unconsumed, rfl, room⟩

end Context

end AmbaPci

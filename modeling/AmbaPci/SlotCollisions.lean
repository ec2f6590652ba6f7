import AmbaPci.RingRefinement
import AmbaPci.TrafficRuns

set_option autoImplicit false

/- Whether the descriptors in flight lie in different slots, also when the counter wraps. -/
namespace AmbaPci

open ByteMemory
open Interaction Interaction.Machine

/-- The slots of a ring whose counters start at `origin` stay apart for `posts` posts: the counter
does not wrap, or its wrap is a multiple of `num`, or it skips more slots than are ever used. -/
def SlotsApart (num origin : BitVec 32) (posts : Nat) : Prop :=
  2 ^ 32 % num.toNat = 0 ∨ posts ≤ 2 ^ 32 % num.toNat ∨ origin.toNat + posts ≤ 2 ^ 32

instance (num origin : BitVec 32) (posts : Nat) : Decidable (SlotsApart num origin posts) :=
  inferInstanceAs (Decidable (_ ∨ _ ∨ _))

variable {num maxBlk origin : BitVec 32} {img : FwImageDesc}

/-- The slot of post `index`. -/
def ringSlot (num origin : BitVec 32) (index : Nat) : Nat := (ringIndex origin index % num).toNat

theorem ringSlot_eq (num origin : BitVec 32) (index : Nat) :
    ringSlot num origin index = (origin.toNat + index) % 2 ^ 32 % num.toNat := by
  rw [ringSlot, BitVec.toNat_umod, ringIndex, BitVec.toNat_add, BitVec.toNat_ofNat, Nat.add_mod_mod]

/-- Across the wrap, positions land on one slot only at the distance `2 ^ 32 % num`. -/
theorem wrapped_ne {modulus before after distance : Nat}
    (wrapped : before + distance = after + 2 ^ 32) (positive : 0 < modulus)
    (near : distance < 2 ^ 32 % modulus) : before % modulus ≠ after % modulus := by
  intro same
  have below := Nat.mod_lt (2 ^ 32) positive
  have sums : (before % modulus + distance) % modulus =
      (before % modulus + 2 ^ 32 % modulus) % modulus := by
    rw [Nat.mod_add_mod, wrapped, same, ← Nat.add_mod]
  exact mod_ne_of_near (by omega) (by omega) sums

/-- Positions less than `num` apart have different slots. -/
theorem ringSlot_ne {posts first second : Nat} (apart : SlotsApart num origin posts)
    (before : first < second) (near : second < first + num.toNat) (inside : second < posts) :
    ringSlot num origin first ≠ ringSlot num origin second := by
  have start := origin.isLt
  have modulus := num.isLt
  have positive : 0 < num.toNat := by omega
  rw [ringSlot_eq, ringSlot_eq]
  rcases apart with divides | short | straight
  · rw [Nat.mod_mod_of_dvd _ (Nat.dvd_of_mod_eq_zero divides),
      Nat.mod_mod_of_dvd _ (Nat.dvd_of_mod_eq_zero divides)]
    exact mod_ne_of_near (by omega) (by omega)
  · have below := Nat.mod_lt (2 ^ 32) positive
    by_cases early : origin.toNat + first < 2 ^ 32
    · rw [Nat.mod_eq_of_lt early]
      by_cases late : origin.toNat + second < 2 ^ 32
      · rw [Nat.mod_eq_of_lt late]
        exact mod_ne_of_near (by omega) (by omega)
      · have once : (origin.toNat + second) % 2 ^ 32 = origin.toNat + second - 2 ^ 32 := by omega
        have distance : second - first < 2 ^ 32 % num.toNat := by omega
        rw [once]
        exact wrapped_ne (by omega) positive distance
    · have once : (origin.toNat + first) % 2 ^ 32 = origin.toNat + first - 2 ^ 32 := by omega
      have again : (origin.toNat + second) % 2 ^ 32 = origin.toNat + second - 2 ^ 32 := by omega
      rw [once, again]
      exact mod_ne_of_near (by omega) (by omega)
  · have early : origin.toNat + first < 2 ^ 32 := by omega
    have late : origin.toNat + second < 2 ^ 32 := by omega
    rw [Nat.mod_eq_of_lt early, Nat.mod_eq_of_lt late]
    exact mod_ne_of_near (by omega) (by omega)

/-- Otherwise two posts at that distance share a slot. -/
theorem ringSlot_collision {posts : Nat} (positive : 0 < num.toNat)
    (together : ¬ SlotsApart num origin posts) :
    ∃ first, first + 2 ^ 32 % num.toNat < posts ∧
      ringSlot num origin (first + 2 ^ 32 % num.toNat) = ringSlot num origin first := by
  have start := origin.isLt
  have below := Nat.mod_lt (2 ^ 32) positive
  have modulus := num.isLt
  have whole := Nat.div_add_mod (2 ^ 32) num.toNat
  unfold SlotsApart at together
  refine ⟨2 ^ 32 - (origin.toNat + 2 ^ 32 % num.toNat), by omega, ?_⟩
  rw [ringSlot_eq, ringSlot_eq]
  by_cases small : origin.toNat + 2 ^ 32 % num.toNat ≤ 2 ^ 32
  · have wraps : origin.toNat + (2 ^ 32 - (origin.toNat + 2 ^ 32 % num.toNat) +
        2 ^ 32 % num.toNat) = 2 ^ 32 := by omega
    have before : (origin.toNat + (2 ^ 32 - (origin.toNat + 2 ^ 32 % num.toNat))) % 2 ^ 32 =
        num.toNat * (2 ^ 32 / num.toNat) := by omega
    rw [wraps, before, Nat.mul_mod_right]
    simp
  · have first : 2 ^ 32 - (origin.toNat + 2 ^ 32 % num.toNat) = 0 := by omega
    have wraps : (origin.toNat + (0 + 2 ^ 32 % num.toNat)) % 2 ^ 32 =
        origin.toNat + 2 ^ 32 % num.toNat - 2 ^ 32 := by omega
    have same : origin.toNat = origin.toNat + 2 ^ 32 % num.toNat - 2 ^ 32 +
        num.toNat * (2 ^ 32 / num.toNat) := by omega
    rw [first, wraps, Nat.add_zero, Nat.mod_eq_of_lt start]
    calc (origin.toNat + 2 ^ 32 % num.toNat - 2 ^ 32) % num.toNat
      _ = (origin.toNat + 2 ^ 32 % num.toNat - 2 ^ 32 + num.toNat * (2 ^ 32 / num.toNat)) %
          num.toNat := (Nat.add_mul_mod_self_left _ _ _).symm
      _ = origin.toNat % num.toNat := by rw [← same]

/-! The statement -/

/-- What holds of the position of every descriptor that is published and unconsumed. -/
def RingCounters.AllPending (num : BitVec 32) (s : RingCounters) (holds : BitVec 32 → Prop) :
    Prop :=
  ∀ index < s.pending num, holds (ringIndex (s.avail - num) index)

/-- The published and unconsumed descriptors have different slots. -/
def SlotsDistinct (num : BitVec 32) (s : RingCounters) : Prop :=
  ∀ first second, first < second → second < s.pending num →
    ringSlot num (s.avail - num) first ≠ ringSlot num (s.avail - num) second

/-- Nothing is written into the slot of a published and unconsumed descriptor, neither a word nor a
byte of a chunk. -/
def SparesSlots (num : BitVec 32) (s : RingCounters) : Op → Prop
  | .writel _ _ off _ =>
      s.AllPending num fun position => Apart off 4 (pcieRingDesc position num) 20
  | .memcpyToio _ _ off bytes =>
      s.AllPending num fun position => Apart off bytes.length (pcieRingDesc position num) 20
  | _ => True

theorem sparesSlots_writel (s : RingCounters) (fn : RingFn) (base : Mapping) (off : Nat)
    (value : BitVec 32) :
    SparesSlots num s (.writel fn base off value) =
      s.AllPending num fun position => Apart off 4 (pcieRingDesc position num) 20 := rfl

theorem sparesSlots_memcpyToio (s : RingCounters) (fn : RingFn) (base : Mapping) (off : Nat)
    (bytes : List Byte) :
    SparesSlots num s (.memcpyToio fn base off bytes) =
      s.AllPending num fun position =>
        Apart off bytes.length (pcieRingDesc position num) 20 := rfl

/-- In every run of the transfer of an image, the descriptors in flight have different slots and are
spared. -/
def KeepsSlots (num : BitVec 32) (ringMapSize : BitVec 64) (img : FwImageDesc)
    (start : RingWorld) : Prop :=
  ∀ (user : BitVec 64 → Byte) (t : Timing) (base : Mapping) (userBase : BitVec 64)
    (program : Host Int) (w : RingWorld),
    (ringMachine user).Steps (pcieRingXferUser t base ringMapSize userBase img, start)
      (program, w) →
    SlotsDistinct num w.counters ∧
      ∀ op next, program = .call op next → SparesSlots num w.counters op

/-- The block of each chunk lies clear of the slots of the up to `num - 1` descriptors that are
posted before it. -/
def BlocksSpareSlots (num maxBlk origin : BitVec 32) (img : FwImageDesc) : Prop :=
  ∀ second < ringChunks (pcieRingXferTotal img.length), ∀ first < second,
    second < first + num.toNat →
    Apart (pcieRingDataBlk (BitVec.ofNat 32 second % maxBlk))
      (ringChunkLen (pcieRingXferTotal img.length) second)
      (pcieRingDesc (ringIndex origin first) num) 20

/-- No block comes near a slot where the slots end before the first block. -/
theorem blocksSpareSlots_of_layout (layout : rhDesc0Off + num.toNat * 20 ≤ ringBlockSize)
    (positive : 0 < maxBlk.toNat) : BlocksSpareSlots num maxBlk origin img := by
  intro second _ first before near
  have behind := dataBlk_ge maxBlk (BitVec.ofNat 32 second) positive
  have below := pcieRingDesc_lt (ringIndex origin first) (by omega) layout
  unfold Apart
  omega

/-! The counters of a ring in use -/

section InRing

variable {post : Nat → PostedDesc} {posted consumed : Nat} {s : RingTraffic}

theorem InRing.position (here : InRing num origin post posted consumed s) :
    s.counters.avail - num = ringIndex origin consumed := by
  rw [here.avail, BitVec.add_sub_cancel]

theorem InRing.pending (here : InRing num origin post posted consumed s) :
    s.counters.pending num = posted - consumed := by
  have behind := here.behind
  have bounded := here.bounded
  have bound := num.isLt
  have ahead : ringIndex origin posted =
      ringIndex (ringIndex origin consumed) (posted - consumed) := by
    rw [ringIndex_add, Nat.add_sub_cancel' behind]
  have distance : s.counters.used - (s.counters.avail - num) =
      BitVec.ofNat 32 (posted - consumed) := by
    rw [here.used, here.position, ahead, ringIndex.eq_1 (ringIndex origin consumed),
      BitVec.add_comm, BitVec.add_sub_cancel]
  rw [RingCounters.pending, distance, BitVec.toNat_ofNat, Nat.mod_eq_of_lt (by omega)]

/-- The positions in use are those of the posts that are not consumed. -/
theorem InRing.allPending_iff (here : InRing num origin post posted consumed s)
    (holds : BitVec 32 → Prop) :
    s.counters.AllPending num holds ↔
      ∀ index, consumed ≤ index → index < posted → holds (ringIndex origin index) := by
  rw [RingCounters.AllPending, here.pending, here.position]
  constructor
  · intro all index unconsumed earlier
    have there := all (index - consumed) (by omega)
    rwa [ringIndex_add, Nat.add_sub_cancel' unconsumed] at there
  · intro all index inside
    rw [ringIndex_add]
    exact all _ (Nat.le_add_right _ _) (by omega)

theorem InRing.slotsDistinct {posts : Nat} (apart : SlotsApart num origin posts)
    (inside : posted ≤ posts) (here : InRing num origin post posted consumed s) :
    SlotsDistinct num s.counters := by
  have bounded := here.bounded
  intro first second before pending
  rw [here.pending] at pending
  unfold ringSlot
  rw [here.position, ringIndex_add, ringIndex_add]
  exact ringSlot_ne apart (by omega) (by omega) (by omega)

end InRing

/-! Every run -/

theorem sparesSlots_watches (apart : SlotsApart num origin (imagePosts img))
    (blocks : BlocksSpareSlots num maxBlk origin img) :
    Watches (fun s op => SlotsDistinct num s.counters ∧ SparesSlots num s.counters op)
      num maxBlk origin img (imagePosts img) where
  quiet s op posted consumed inside here bypasses := by
    refine ⟨here.slotsDistinct apart inside, ?_⟩
    cases op with
    | writel fn base off value =>
        intro index _
        have low : off = rhUsedOff := bypasses
        rw [low, pcieRingDesc]
        unfold Apart rhUsedOff rhDesc0Off
        omega
    | memcpyToio fn base off bytes => exact bypasses.elim
    | _ => trivial
  word s fn base posted consumed words value few inside draft := by
    have here := draft.ring
    have room := draft.room
    refine ⟨here.slotsDistinct apart (Nat.le_of_lt inside), ?_⟩
    rw [sparesSlots_writel, here.allPending_iff]
    intro index unconsumed earlier
    have slots := ringSlot_ne apart earlier (by omega) inside
    unfold ringSlot at slots
    unfold Apart pcieRingDesc
    omega
  block s base bytes posted consumed words inside whole draft size := by
    have here := draft.ring
    have room := draft.room
    refine ⟨here.slotsDistinct apart (Nat.le_succ_of_le (Nat.le_of_lt inside)), ?_⟩
    rw [sparesSlots_memcpyToio, here.allPending_iff, size]
    intro index unconsumed earlier
    exact blocks posted inside index earlier (by omega)

theorem transfer_keepsSlots (user : BitVec 64 → Byte) (t : Timing) (base : Mapping)
    (ringMapSize userBase : BitVec 64) {log : List EpAction} {start : RingWorld}
    (idle : IdleRing num maxBlk log start) (apart : SlotsApart num start.used (imagePosts img))
    (blocks : BlocksSpareSlots num maxBlk start.used img) (positive : 0 < maxBlk.toNat) :
    (ringMachine user).wp
      (fun w op => SlotsDistinct num w.counters ∧ SparesSlots num w.counters op)
      (fun _ w => SlotsDistinct num w.counters)
      (pcieRingXferUser t base ringMapSize userBase img) start := by
  have watches := ((passing_watches (Nat.le_succ _)).and (noWords_spares positive)).and
    (sparesSlots_watches apart blocks)
  refine wp_mono (wp_ring noWords_watches (fun _ _ guard => guard.1) (fun _ _ passing => passing)
    (fun w s op follows guard => ?_) (watches.transfer t base ringMapSize userBase (idle.ringed _))
    (idle.waits noWords_watches).follows) ?_
  · rw [follows.shows.counters]
    exact guard.2
  · rintro value w ⟨s, follows, posted, consumed, inside, inRing⟩
    rw [follows.shows.counters]
    exact inRing.slotsDistinct apart inside

/-! Runs in which the endpoint stands still -/

section Collides

variable {user : BitVec 64 → Byte} {ringMapSize : BitVec 64} {log : List EpAction}
  {start : RingWorld}

/-- What the traffic can come to, the ring can come to. -/
theorem ring_reaches (accepted : RingAccepts num maxBlk ringMapSize)
    (idle : IdleRing num maxBlk log start)
    (can : (trafficMachine user num maxBlk).CanCall (fun s op => ¬ SparesSlots num s.counters op)
      (pcieRingXferUser onePoll 0 ringMapSize 0 img) ⟨start.counters, [], []⟩) :
    (ringMachine user).CanCall (fun w op => ¬ SparesSlots num w.counters op)
      (pcieRingXferUser onePoll 0 ringMapSize 0 img) start := by
  have positive := BitVec.toNat_pos_of_ne_zero accepted.2.1
  refine can.realize (waits_realizes noWords_watches fun _ _ spares => spares)
    ((noWords_spares positive).transfer onePoll 0 ringMapSize 0 (idle.ringed _))
    (idle.waits noWords_watches) ?_
  intro w s op waits overwrites
  rw [waits.1.counters]
  exact overwrites

/-- The endpoint stops at the first of two posts with one slot, and the second one is written. -/
theorem word_collides (img : FwImageDesc) (accepted : RingAccepts num maxBlk ringMapSize)
    {s : RingTraffic} (idle : s.Idle num)
    (together : ¬ SlotsApart num s.counters.used (imagePosts img)) :
    (trafficMachine user num maxBlk).CanCall (fun s op => ¬ SparesSlots num s.counters op)
      (pcieRingXferUser onePoll 0 ringMapSize 0 img) s := by
  have positive := BitVec.toNat_pos_of_ne_zero accepted.1
  have below := Nat.mod_lt (2 ^ 32) positive
  obtain ⟨first, inside, same⟩ := ringSlot_collision positive together
  have wrapped : 0 < 2 ^ 32 % num.toNat := by
    unfold SlotsApart at together
    omega
  have oldest : min (first + 2 ^ 32 % num.toNat) first = first := by omega
  have collides : ∀ s' op, WritesDesc num s.counters.used
      (imagePost num maxBlk s.counters.used img) (first + 2 ^ 32 % num.toNat)
      (min (first + 2 ^ 32 % num.toNat) first) s' op → ¬ SparesSlots num s'.counters op := by
    rintro s' op ⟨inRing, fn, base, value, rfl⟩ spares
    rw [oldest] at inRing
    rw [sparesSlots_writel, inRing.allPending_iff] at spares
    have apart := spares first (Nat.le_refl _) (by omega)
    unfold ringSlot at same
    unfold Apart pcieRingDesc at apart
    omega
  have near : first + 2 ^ 32 % num.toNat < first + num.toNat := by omega
  unfold imagePosts at inside
  by_cases chunk : first + 2 ^ 32 % num.toNat < ringChunks (pcieRingXferTotal img.length)
  · refine traffic_reaches_chunk accepted idle first 0 0 chunk near fun ring s' here => ?_
    obtain ⟨op, next, s, run, writes⟩ := here.pass_writes 0 positive near
    exact ⟨op, next, s, run, collides s op writes⟩
  · have last : first + 2 ^ 32 % num.toNat = ringChunks (pcieRingXferTotal img.length) := by omega
    rw [last] at near collides
    refine traffic_reaches_command accepted idle first 0 0 near fun ring s' here => ?_
    obtain ⟨op, next, s, run, writes⟩ := here.command_writes positive near _ _ _
    exact ⟨op, next, s, run, collides s op writes⟩

/-- The endpoint stops at a descriptor, and a later chunk is copied over it. -/
theorem block_collides (img : FwImageDesc) (accepted : RingAccepts num maxBlk ringMapSize)
    {s : RingTraffic} (idle : s.Idle num)
    (touching : ¬ BlocksSpareSlots num maxBlk s.counters.used img) :
    (trafficMachine user num maxBlk).CanCall (fun s op => ¬ SparesSlots num s.counters op)
      (pcieRingXferUser onePoll 0 ringMapSize 0 img) s := by
  have positive := BitVec.toNat_pos_of_ne_zero accepted.1
  simp only [BlocksSpareSlots, Classical.not_forall] at touching
  obtain ⟨second, inside, first, before, near, touches⟩ := touching
  refine traffic_reaches_chunk accepted idle first 0 0 inside near fun ring s' here => ?_
  obtain ⟨op, next, s₁, run, ⟨_, _, _, draft⟩, base, bytes, rfl, size⟩ :=
    here.pass_copies 0 positive near inside
  refine ⟨_, next, s₁, run, fun spares => touches ?_⟩
  have oldest : min second first = first := by omega
  rw [oldest] at draft
  rw [sparesSlots_memcpyToio, draft.ring.allPending_iff, size] at spares
  exact spares first (Nat.le_refl _) before

end Collides

/-- The slots in flight are distinct, and spared, exactly when the counter does not wrap during the
transfer, or its wrap fits the number of slots, or the image takes too few descriptors to notice;
and no chunk's block reaches a descriptor that may be in flight. -/
theorem slot_collisions_iff (num maxBlk : BitVec 32) (ringMapSize : BitVec 64) (img : FwImageDesc)
    (log : List EpAction) (start : RingWorld) (accepted : RingAccepts num maxBlk ringMapSize)
    (idle : IdleRing num maxBlk log start) :
    KeepsSlots num ringMapSize img start ↔
      SlotsApart num start.used (imagePosts img) ∧ BlocksSpareSlots num maxBlk start.used img := by
  constructor
  · intro keeps
    have impossible : ∀ user : BitVec 64 → Byte,
        ¬ (trafficMachine user num maxBlk).CanCall
          (fun s op => ¬ SparesSlots num s.counters op)
          (pcieRingXferUser onePoll 0 ringMapSize 0 img) ⟨start.counters, [], []⟩ := by
      intro user can
      obtain ⟨op, next, w, run, overwrites⟩ := ring_reaches accepted idle can
      exact overwrites ((keeps user onePoll 0 0 _ w run).2 op next rfl)
    constructor
    · apply Classical.byContradiction
      intro together
      exact impossible (fun _ => 0) (word_collides img accepted idle.traffic together)
    · apply Classical.byContradiction
      intro touching
      exact impossible (fun _ => 0) (block_collides img accepted idle.traffic touching)
  · rintro ⟨apart, blocks⟩ user t base userBase program w run
    have positive := BitVec.toNat_pos_of_ne_zero accepted.2.1
    have kept := transfer_keepsSlots user t base ringMapSize userBase idle apart blocks positive
    refine ⟨wp_reached kept (fun _ _ safe => safe.1) (fun _ _ distinct => distinct) run, ?_⟩
    rintro op next rfl
    exact (wp_guard kept run).2

/-- Four slots, and a counter that wraps during the transfer. -/
theorem slot_collisions_iff_four :
    KeepsSlots 4 4096 ⟨0, 0, 4096⟩ (restingRing 4 4 0xFFFFFFFF) := by
  obtain ⟨idle, used⟩ := restingRing_idle 4 4 0xFFFFFFFF
  refine (slot_collisions_iff 4 4 4096 ⟨0, 0, 4096⟩ [] (restingRing 4 4 0xFFFFFFFF)
    ⟨by decide, by decide, by decide⟩ idle).mpr ⟨?_, ?_⟩
  · rw [used]
    decide
  · exact blocksSpareSlots_of_layout (by decide) (by decide)

/-- Three slots: the first descriptor goes into slot 0 as the last before the wrap, and the second
one into slot 0 again. -/
theorem slot_collisions_three : ¬ ∀ num maxBlk ringMapSize img log (start : RingWorld),
    RingAccepts num maxBlk ringMapSize → IdleRing num maxBlk log start →
    KeepsSlots num ringMapSize img start := by
  intro claim
  have accepted : RingAccepts 3 4 4096 := ⟨by decide, by decide, by decide⟩
  obtain ⟨idle, used⟩ := restingRing_idle 3 4 0xFFFFFFFF
  have keeps := claim 3 4 4096 ⟨0, 0, 512⟩ [] (restingRing 3 4 0xFFFFFFFF) accepted idle
  have together : ¬ SlotsApart 3 (restingRing 3 4 0xFFFFFFFF).used (imagePosts ⟨0, 0, 512⟩) := by
    rw [used]
    decide
  obtain ⟨op, next, w, run, overwrites⟩ :=
    ring_reaches accepted idle (word_collides ⟨0, 0, 512⟩ accepted idle.traffic together)
  exact overwrites ((keeps (fun _ => 0) onePoll 0 0 _ w run).2 op next rfl)

end AmbaPci

import AmbaPci.RingOverwrites
import AmbaPci.SlotCollisions

set_option autoImplicit false

/- Whether a data block can be written again before the endpoint has read it. -/
namespace AmbaPci

open ByteMemory
open Interaction Interaction.Machine

/-- A descriptor that is published and not consumed: the ring holds it in the slot of such a
position, or the endpoint has fetched it from there. -/
def Unconsumed (num : BitVec 32) (w : RingWorld) (desc : EpDesc) : Prop :=
  (∃ index < w.counters.pending num,
      desc = loadDesc w.bar (pcieRingDesc (ringIndex (w.avail - num) index) num)) ∨
    w.phase = .fetched desc

/-- A chunk is copied into a block that no published and unconsumed DATA descriptor names. -/
def SparesBlocks (num : BitVec 32) (w : RingWorld) : Op → Prop
  | .memcpyToio _ _ off _ =>
      ∀ desc, Unconsumed num w desc → desc.cmd = ringCmdData → off ≠ pcieRingDataBlk desc.blkid
  | _ => True

/-- In every run of the transfer of an image that starts on an idle ring, every copy spares the
blocks that are still to be read. -/
def KeepsBlocks (num maxBlk : BitVec 32) (ringMapSize : BitVec 64) (img : FwImageDesc) : Prop :=
  ∀ (user : BitVec 64 → Byte) (t : Timing) (base : Mapping) (userBase : BitVec 64)
    (log : List EpAction) (start : RingWorld), IdleRing num maxBlk log start →
    ∀ op next w, (ringMachine user).Steps
      (pcieRingXferUser t base ringMapSize userBase img, start) (.call op next, w) →
        SparesBlocks num w op

/-- The descriptors of an image stay what they are: the slots end before the first block, and the
counter wraps to a multiple of `num`, or the chunks are too few to notice. And there are as many
blocks as descriptors, or as chunks. -/
structure BlocksSuffice (num maxBlk : BitVec 32) (img : FwImageDesc) : Prop where
  layout : rhDesc0Off + num.toNat * 20 ≤ ringBlockSize
  slots : 2 ^ 32 % num.toNat = 0 ∨
    ringChunks (pcieRingXferTotal img.length) ≤ 2 ^ 32 % num.toNat
  blocks : num.toNat ≤ maxBlk.toNat ∨ ringChunks (pcieRingXferTotal img.length) ≤ maxBlk.toNat

theorem pcieRingDataBlk_injective {first second : BitVec 32}
    (same : pcieRingDataBlk first = pcieRingDataBlk second) : first = second := by
  have next : (first + 1).toNat = (second + 1).toNat := by
    unfold pcieRingDataBlk ringBlockSize at same
    omega
  have left := first.isLt
  have right := second.isLt
  have one : (1 : BitVec 32).toNat = 1 := rfl
  rw [BitVec.toNat_add, BitVec.toNat_add, one] at next
  apply BitVec.eq_of_toNat_eq
  omega

/-- Chunks less than `max_blk` apart go into different blocks. -/
theorem chunkBlk_ne {maxBlk : BitVec 32} {first second : Nat} (before : first < second)
    (few : second < 2 ^ 32) (near : second < first + maxBlk.toNat) :
    BitVec.ofNat 32 second % maxBlk ≠ BitVec.ofNat 32 first % maxBlk := by
  intro same
  have values := congrArg BitVec.toNat same
  rw [BitVec.toNat_umod, BitVec.toNat_umod, BitVec.toNat_ofNat, BitVec.toNat_ofNat,
    Nat.mod_eq_of_lt few, Nat.mod_eq_of_lt (Nat.lt_trans before few)] at values
  exact mod_ne_of_near before near values.symm

variable {user : BitVec 64 → Byte} {num maxBlk origin : BitVec 32} {img : FwImageDesc}
  {posts : Nat} {watched : RingTraffic → List (Nat × BitVec 32)}

/-! The descriptors in the ring are those of the traffic -/

/-- The copy goes into a block that no queued DATA descriptor names. -/
def SparesQueued (s : RingTraffic) : Op → Prop
  | .memcpyToio _ _ off _ => ∀ d ∈ s.queue, d.cmd = ringCmdData → off ≠ pcieRingDataBlk d.blkid
  | _ => True

/-- A descriptor that a word was written for, and that is watched, is read as it was written. -/
theorem RingShows.loadDesc {w : RingWorld} {s : RingTraffic}
    (shows : RingShows num maxBlk watched w s) {d : PostedDesc}
    (member : ∀ place ∈ d.words, place ∈ watched s) :
    (loadDesc w.bar d.off).cmd = d.cmd ∧ (loadDesc w.bar d.off).blkid = d.blkid :=
  ⟨shows.held (d.off, d.cmd) (member _ (by simp [PostedDesc.words])),
    shows.held (d.off + 16, d.blkid) (member _ (by simp [PostedDesc.words]))⟩

/-- Every unconsumed descriptor is queued, with the words it was published with. -/
theorem Follows.unconsumed {w : RingWorld} {s : RingTraffic} {posted consumed : Nat}
    (follows : Follows num maxBlk watched w s)
    (here : InRing num origin (imagePost num maxBlk origin img) posted consumed s) {desc : EpDesc}
    (unconsumed : Unconsumed num w desc) :
    ∃ d ∈ s.queue, WatchesQueue watched → desc.cmd = d.cmd ∧ desc.blkid = d.blkid := by
  rcases unconsumed with ⟨index, pending, rfl⟩ | fetched
  · rw [follows.shows.counters, here.pending] at pending
    have inside : imagePost num maxBlk origin img (consumed + index) ∈ s.queue := by
      rw [here.queue]
      exact List.mem_map_of_mem (List.mem_range'_1.mpr (by omega))
    have avail : w.avail = s.counters.avail := congrArg RingCounters.avail follows.shows.counters
    refine ⟨_, inside, fun queued => ?_⟩
    rw [avail, here.position, ringIndex_add]
    exact follows.shows.loadDesc (queued s _ inside)
  · have some := follows.busy (by rw [fetched]; exact nofun)
    have oldest := List.head?_eq_some_head some
    exact ⟨_, List.head_mem some, fun queued => follows.fetched queued desc _ fetched oldest⟩

theorem Follows.sparesBlocks {w : RingWorld} {s : RingTraffic} {op : Op}
    (follows : Follows num maxBlk watched w s) (queued : WatchesQueue watched)
    (here : Passing num origin (imagePost num maxBlk origin img) posts s)
    (spared : SparesQueued s op) : SparesBlocks num w op := by
  obtain ⟨posted, consumed, -, here⟩ := here
  cases op with
  | memcpyToio fn base off bytes =>
      intro desc unconsumed command
      obtain ⟨d, inside, same⟩ := follows.unconsumed here unconsumed
      obtain ⟨cmd, blkid⟩ := same queued
      rw [blkid]
      exact spared d inside (cmd ▸ command)
  | _ => trivial

/-- Nothing is queued when a chunk is copied. -/
def CopiesAlone (s : RingTraffic) : Op → Prop
  | .memcpyToio _ _ _ _ => s.queue = []
  | _ => True

theorem Follows.sparesBlocks_alone {w : RingWorld} {s : RingTraffic} {op : Op}
    (follows : Follows num maxBlk watched w s)
    (here : Passing num origin (imagePost num maxBlk origin img) posts s)
    (alone : CopiesAlone s op) : SparesBlocks num w op := by
  obtain ⟨posted, consumed, -, here⟩ := here
  cases op with
  | memcpyToio fn base off bytes =>
      intro desc unconsumed
      have none : s.queue = [] := alone
      obtain ⟨d, inside, -⟩ := follows.unconsumed here unconsumed
      rw [none] at inside
      cases inside
  | _ => trivial

/-! What the transfer spares -/

/-- The queued words lie in the slots of the posts that are not consumed. -/
theorem InRing.place {posted consumed : Nat} {s : RingTraffic} {place : Nat × BitVec 32}
    (here : InRing num origin (imagePost num maxBlk origin img) posted consumed s)
    (member : place ∈ s.queue.flatMap PostedDesc.words) :
    ∃ index, consumed ≤ index ∧ index < posted ∧
      pcieRingDesc (ringIndex origin index) num ≤ place.1 ∧
      place.1 + 4 ≤ pcieRingDesc (ringIndex origin index) num + 20 := by
  obtain ⟨d, queued, word⟩ := List.mem_flatMap.mp member
  obtain ⟨index, unconsumed, earlier, rfl⟩ := here.mem queued
  have place' : place.1 = pcieRingDesc (ringIndex origin index) num ∨
      place.1 = pcieRingDesc (ringIndex origin index) num + 16 := by
    rcases List.mem_cons.mp word with rfl | last
    · exact Or.inl rfl
    · rw [List.mem_singleton.mp last]
      exact Or.inr rfl
  exact ⟨index, unconsumed, earlier, by omega, by omega⟩

/-- Every descriptor in the ring is spared where the slots in use are different and end before the
first block. -/
theorem allWords_spares (layout : rhDesc0Off + num.toNat * 20 ≤ ringBlockSize)
    (positive : 0 < maxBlk.toNat) (apart : SlotsApart num origin posts) :
    Watches (Spares allWords) num maxBlk origin img posts where
  quiet s op posted consumed inside here bypasses := spares_of_bypasses bypasses
  word s fn base posted consumed words value few inside draft := by
    have own := (written_spares layout positive).word s fn base posted consumed words value few
      inside draft
    refine Or.inr ⟨by rw [pcieRingDesc]; omega, fun place member => ?_⟩
    rcases List.mem_append.mp member with written | queued
    · rcases own with used | ⟨-, own⟩
      · unfold pcieRingDesc rhDesc0Off rhUsedOff at used
        omega
      · exact own place written
    · obtain ⟨index, unconsumed, earlier, low, high⟩ := draft.ring.place queued
      have room := draft.room
      have slots := ringSlot_ne apart earlier (by omega) inside
      unfold ringSlot at slots
      unfold pcieRingDesc at low high
      unfold Apart pcieRingDesc
      omega
  block s base bytes posted consumed words inside whole draft size := by
    have written : Watches (Spares RingTraffic.written) num maxBlk origin img posts :=
      written_spares layout positive
    have own := written.block s base bytes posted consumed words inside whole draft size
    refine ⟨own.1, fun place member => ?_⟩
    rcases List.mem_append.mp member with written | queued
    · exact own.2 place written
    · obtain ⟨index, unconsumed, earlier, low, high⟩ := draft.ring.place queued
      have below := pcieRingDesc_lt (ringIndex origin index) draft.num_pos layout
      have behind := dataBlk_ge maxBlk (BitVec.ofNat 32 posted) positive
      unfold Apart
      omega

theorem sparesQueued_watches (few : ringChunks (pcieRingXferTotal img.length) < 2 ^ 32)
    (enough : num.toNat ≤ maxBlk.toNat ∨
      ringChunks (pcieRingXferTotal img.length) ≤ maxBlk.toNat) :
    Watches SparesQueued num maxBlk origin img posts where
  quiet s op posted consumed inside here bypasses := by
    cases op with
    | memcpyToio fn base off bytes => exact bypasses.elim
    | _ => trivial
  word s fn base posted consumed words value few inside draft := trivial
  block s base bytes posted consumed words inside whole draft size := by
    have room := draft.room
    intro d waiting command same
    obtain ⟨index, unconsumed, earlier, rfl⟩ := draft.ring.mem waiting
    rw [(imagePost_chunk (Nat.lt_trans earlier inside)).2] at same
    exact chunkBlk_ne earlier (by omega) (by omega) (pcieRingDataBlk_injective same)

/-- The only chunk of an image is copied into an empty ring. -/
theorem copiesAlone_watches (one : ringChunks (pcieRingXferTotal img.length) ≤ 1) :
    Watches CopiesAlone num maxBlk origin img posts where
  quiet s op posted consumed inside here bypasses := by
    cases op with
    | memcpyToio fn base off bytes => exact bypasses.elim
    | _ => trivial
  word s fn base posted consumed words value few inside draft := trivial
  block s base bytes posted consumed words inside whole draft size := by
    have none : posted - consumed = 0 := by omega
    have queue := draft.ring.queue
    rw [none] at queue
    exact queue

/-! Every run -/

section Stages

/-- The ring between two posts, as the traffic shows in it. -/
def RingShown (num maxBlk origin : BitVec 32) (img : FwImageDesc) (posted : Nat) (w : RingWorld) :
    Prop :=
  ∃ s, Follows num maxBlk allWords w s ∧
    Ringed num origin (imagePost num maxBlk origin img) posted s

theorem ringShown_stable (posted : Nat) :
    (ringMachine user).Stable (RingShown num maxBlk origin img posted) := by
  rintro w w' ⟨s, follows, ringed⟩ step
  obtain ⟨s', moved, follows'⟩ : ∃ s', (trafficMachine user num maxBlk).Drift s s' ∧
      Follows num maxBlk allWords w' s' :=
    follows.epStep allWords_watches (ringed.passing (Nat.le_refl posted)) step
  exact ⟨s', follows', (ringed_stable posted).drift ringed moved⟩

/-- What is asked of every step until the last chunk is posted. -/
def KeepsQueue (num maxBlk origin : BitVec 32) (img : FwImageDesc) (s : RingTraffic) (op : Op) :
    Prop :=
  (Passing num origin (imagePost num maxBlk origin img)
      (ringChunks (pcieRingXferTotal img.length)) s ∧ Spares allWords s op) ∧ SparesQueued s op

theorem keepsQueue_watches (suffice : BlocksSuffice num maxBlk img)
    (few : ringChunks (pcieRingXferTotal img.length) < 2 ^ 32) (positive : 0 < maxBlk.toNat) :
    Watches (KeepsQueue num maxBlk origin img) num maxBlk origin img
      (ringChunks (pcieRingXferTotal img.length)) := by
  have apart : SlotsApart num origin (ringChunks (pcieRingXferTotal img.length)) := by
    rcases suffice.slots with divides | short
    · exact Or.inl divides
    · exact Or.inr (Or.inl short)
  exact ((passing_watches (Nat.le_refl _)).and
    (allWords_spares suffice.layout positive apart)).and
      (sparesQueued_watches few suffice.blocks)

/-- What the traffic promises of a part of the transfer, the ring keeps. -/
theorem wp_shown {α : Type} {post : α → RingTraffic → Prop} {program : Host α} {w : RingWorld}
    {s : RingTraffic}
    (holds : (trafficMachine user num maxBlk).wp (KeepsQueue num maxBlk origin img) post program s)
    (returned : ∀ value s, post value s → Passing num origin (imagePost num maxBlk origin img)
      (ringChunks (pcieRingXferTotal img.length)) s)
    (follows : Follows num maxBlk allWords w s) :
    (ringMachine user).wp (SparesBlocks num)
      (fun value w' => ∃ s', Follows num maxBlk allWords w' s' ∧ post value s') program w :=
  wp_ring allWords_watches (fun _ _ keeps => keeps.1) returned
    (fun _ _ _ follows keeps => follows.sparesBlocks allWords_watchesQueue keeps.1.1 keeps.2)
    holds follows

/-- Whatever copies no chunk disturbs no block. -/
theorem sparesBlocks_calls {α : Type} {program : Host α} {base : Mapping} {desc : Nat}
    (calls : program.Calls (RingAccess base desc 1)) (w : RingWorld) :
    (ringMachine user).wp (SparesBlocks num) (fun _ _ => True) program w := by
  have stable : (ringMachine user).Stable fun _ => True := fun _ _ _ _ => trivial
  refine wp_calls stable (fun w op access _ => ?_) (fun _ _ _ _ _ _ _ => trivial) calls trivial
  cases op with
  | memcpyToio fn target off bytes =>
      -- no block begins at the place the copy would have to go to
      intro d _ _ same
      have place : off = 1 := access.2
      unfold pcieRingDataBlk ringBlockSize at same
      omega
  | _ => trivial

theorem transfer_keepsBlocks (suffice : BlocksSuffice num maxBlk img)
    (few : ringChunks (pcieRingXferTotal img.length) < 2 ^ 32) (positive : 0 < maxBlk.toNat)
    (t : Timing) (base : Mapping) (ringMapSize userBase : BitVec 64) :
    XferStages (ringMachine user) (SparesBlocks num) t base ringMapSize userBase img
      (RingShown num maxBlk origin img 0)
      (fun chunk ring w => TrafficCtx num maxBlk origin chunk ring ∧
        RingShown num maxBlk origin img chunk w)
      (fun _ _ => True) where
  startStable := ringShown_stable 0
  stable chunk ring w w' here step := ⟨here.1, ringShown_stable chunk w w' here.2 step⟩
  allocReady _ _ := trivial
  alloc w reply w' here allocated := by
    have same : w' = w := allocated
    rwa [same]
  refused _ _ := fun _ _ => trivial
  init w here := by
    obtain ⟨s, follows, ringed⟩ := here
    apply wp_mono (wp_shown (pcieRingCtxInit_traffic (keepsQueue_watches suffice few positive) base
      ringMapSize ringed) (fun _ _ init => init.1.passing (Nat.zero_le _)) follows)
    rintro init w' ⟨s', follows', ringed', synced⟩
    split
    · exact fun _ _ => trivial
    · rename_i zero
      exact ⟨synced (Decidable.not_not.mp zero), s', follows', ringed'⟩
  pass chunk ring w inside here := by
    obtain ⟨ctx, s, follows, ringed⟩ := here
    apply wp_mono (wp_shown (ringChunkPass_traffic (keepsQueue_watches suffice few positive) t
      userBase inside inside ctx ringed) (fun _ _ next => ?_) follows)
    · rintro posted w' ⟨s', follows', next⟩
      split
      · exact fun _ _ => trivial
      · rename_i zero
        rcases next with ⟨failed, -⟩ | ⟨ctx', ringed'⟩
        · exact absurd failed zero
        · exact ⟨ctx', s', follows', ringed'⟩
    · rcases next with ⟨-, ringed'⟩ | ⟨-, ringed'⟩
      · exact ringed'.passing (Nat.le_of_lt inside)
      · exact ringed'.passing inside
  close ring w _ := by
    apply wp_mono (sparesBlocks_calls (pcieRingPostCmd_accesses t ring _ _ _ 1) w)
    intro closed w' _
    split
    · exact fun _ _ => trivial
    · have calls : (pcieRingXferPoll t base 5000).Calls (RingAccess base 0 1) :=
        pcieRingXferPoll_accesses t 5000
      exact sparesBlocks_calls calls w'

/-- An image of one chunk is copied before anything is published. -/
theorem transfer_copiesAlone (one : ringChunks (pcieRingXferTotal img.length) ≤ 1)
    (positive : 0 < maxBlk.toNat) (t : Timing) (base : Mapping) (ringMapSize userBase : BitVec 64)
    {log : List EpAction} {start : RingWorld} (idle : IdleRing num maxBlk log start) :
    (ringMachine user).wp (SparesBlocks num) (fun _ _ => True)
      (pcieRingXferUser t base ringMapSize userBase img) start := by
  have watches : Watches (fun s op =>
      (Passing num start.used (imagePost num maxBlk start.used img) (imagePosts img) s ∧
        Spares noWords s op) ∧ CopiesAlone s op) num maxBlk start.used img (imagePosts img) :=
    ((passing_watches (Nat.le_succ _)).and (noWords_spares positive)).and (copiesAlone_watches one)
  exact wp_mono (wp_ring noWords_watches (fun _ _ guard => guard.1) (fun _ _ passing => passing)
    (fun _ _ _ follows guard => follows.sparesBlocks_alone guard.1.1 guard.2)
    (watches.transfer t base ringMapSize userBase (idle.ringed _))
    (idle.waits noWords_watches).follows) fun _ _ _ => trivial

end Stages

/-! Runs in which the endpoint stands still -/

section Overtakes

variable {ringMapSize : BitVec 64}

/-- The descriptor of an unconsumed post, as the ring holds it. -/
theorem RingShows.unconsumed {w : RingWorld} {s : RingTraffic} {posted consumed index : Nat}
    (shows : RingShows num maxBlk watched w s)
    (here : InRing num origin (imagePost num maxBlk origin img) posted consumed s)
    (later : consumed ≤ index) (earlier : index < posted) :
    Unconsumed num w (AmbaPci.loadDesc w.bar (pcieRingDesc (ringIndex origin index) num)) := by
  refine Or.inl ⟨index - consumed, ?_, ?_⟩
  · rw [shows.counters, here.pending]
    omega
  · have avail : w.avail = s.counters.avail := congrArg RingCounters.avail shows.counters
    rw [avail, here.position, ringIndex_add, Nat.add_sub_cancel' later]

/-- With too few blocks, the endpoint has consumed nothing when chunk `max_blk` is copied into the
block of the first one. -/
theorem blocks_overtaken (img : FwImageDesc) (accepted : RingAccepts num maxBlk ringMapSize)
    (layout : rhDesc0Off + num.toNat * 20 ≤ ringBlockSize)
    (few : ringChunks (pcieRingXferTotal img.length) < 2 ^ 32)
    (less : maxBlk.toNat < num.toNat)
    (more : maxBlk.toNat < ringChunks (pcieRingXferTotal img.length)) :
    (ringMachine user).CanCall (fun w op => ¬ SparesBlocks num w op)
      (pcieRingXferUser onePoll 0 ringMapSize 0 img) (restingRing num maxBlk 0) := by
  have positive := BitVec.toNat_pos_of_ne_zero accepted.2.1
  obtain ⟨idle, origin⟩ := restingRing_idle num maxBlk 0
  have apart : SlotsApart num (restingRing num maxBlk 0).used (imagePosts img) := by
    have zero : (0 : BitVec 32).toNat = 0 := rfl
    refine Or.inr (Or.inr ?_)
    rw [origin, zero, imagePosts]
    omega
  have copied : (trafficMachine user num maxBlk).CanCall
      (CopiesChunk num maxBlk (restingRing num maxBlk 0).used img maxBlk.toNat 0)
      (pcieRingXferUser onePoll 0 ringMapSize 0 img)
      ⟨(restingRing num maxBlk 0).counters, [], []⟩ := by
    refine traffic_reaches_chunk accepted idle.traffic 0 0 0 more (by omega) fun ring s' here => ?_
    rw [← Nat.min_zero]
    exact here.pass_copies 0 (by omega) (by omega) more
  refine copied.realize (waits_realizes allWords_watches fun _ _ spares => spares)
    ((allWords_spares layout positive apart).transfer onePoll 0 ringMapSize 0 (idle.ringed _))
    (idle.waits allWords_watches) ?_
  rintro w s op ⟨shows, -⟩ ⟨⟨_, _, _, draft⟩, base, bytes, rfl, -⟩ spares
  have inside : imagePost num maxBlk (restingRing num maxBlk 0).used img 0 ∈ s.queue := by
    rw [draft.ring.queue]
    exact List.mem_map_of_mem (List.mem_range'_1.mpr (by omega))
  obtain ⟨cmd, blkid⟩ := shows.loadDesc (allWords_watchesQueue s _ inside)
  obtain ⟨command, block⟩ : (imagePost num maxBlk (restingRing num maxBlk 0).used img 0).cmd =
      ringCmdData ∧ _ := imagePost_chunk (by omega)
  have apart := spares _ (shows.unconsumed draft.ring (Nat.le_refl 0) positive)
    (cmd.trans command)
  apply apart
  rw [show (AmbaPci.loadDesc w.bar (pcieRingDesc (ringIndex (restingRing num maxBlk 0).used 0)
    num)).blkid = _ from blkid, block, BitVec.ofNat_toNat, BitVec.setWidth_eq, BitVec.umod_self]
  simp

/-- Across a wrap that is no multiple of `num`, the descriptor of a chunk is written into the slot
of an unconsumed one, which then names the block of the chunk. -/
theorem slots_overtaken (img : FwImageDesc) (accepted : RingAccepts num maxBlk ringMapSize)
    (layout : rhDesc0Off + num.toNat * 20 ≤ ringBlockSize)
    (skips : 0 < 2 ^ 32 % num.toNat)
    (more : 2 ^ 32 % num.toNat < ringChunks (pcieRingXferTotal img.length)) :
    (ringMachine user).CanCall (fun w op => ¬ SparesBlocks num w op)
      (pcieRingXferUser onePoll 0 ringMapSize 0 img)
      (restingRing num maxBlk (BitVec.ofNat 32 (2 ^ 32 - 2 ^ 32 % num.toNat))) := by
  have positive := BitVec.toNat_pos_of_ne_zero accepted.2.1
  have below := Nat.mod_lt (2 ^ 32) (BitVec.toNat_pos_of_ne_zero accepted.1)
  have bound := num.isLt
  obtain ⟨idle, origin⟩ :=
    restingRing_idle num maxBlk (BitVec.ofNat 32 (2 ^ 32 - 2 ^ 32 % num.toNat))
  generalize restingRing num maxBlk (BitVec.ofNat 32 (2 ^ 32 - 2 ^ 32 % num.toNat)) = start
    at idle origin ⊢
  have first : ringSlot num start.used 0 = 0 := by
    have whole := Nat.div_add_mod (2 ^ 32) num.toNat
    have multiple : 2 ^ 32 - 2 ^ 32 % num.toNat = num.toNat * (2 ^ 32 / num.toNat) := by omega
    have small : 2 ^ 32 - 2 ^ 32 % num.toNat < 2 ^ 32 := by omega
    rw [ringSlot_eq, origin, BitVec.toNat_ofNat, Nat.add_zero, Nat.mod_mod, Nat.mod_eq_of_lt small,
      multiple, Nat.mul_mod_right]
  have second : ringSlot num start.used (2 ^ 32 % num.toNat) = 0 := by
    have wraps : 2 ^ 32 - 2 ^ 32 % num.toNat + 2 ^ 32 % num.toNat = 2 ^ 32 := by omega
    rw [ringSlot_eq, origin, BitVec.toNat_ofNat, Nat.mod_add_mod, wraps, Nat.mod_self, Nat.zero_mod]
  have copied : (trafficMachine user num maxBlk).CanCall
      (CopiesChunk num maxBlk start.used img (2 ^ 32 % num.toNat) 0)
      (pcieRingXferUser onePoll 0 ringMapSize 0 img) ⟨start.counters, [], []⟩ := by
    refine traffic_reaches_chunk accepted idle.traffic 0 0 0 more (by omega) fun ring s' here => ?_
    rw [← Nat.min_zero]
    exact here.pass_copies 0 (by omega) (by omega) more
  refine copied.realize (waits_realizes written_watches fun _ _ spares => spares)
    ((written_spares layout positive).transfer onePoll 0 ringMapSize 0 (idle.ringed _))
    (idle.waits written_watches) ?_
  rintro w s op ⟨shows, -⟩ ⟨⟨_, _, _, draft⟩, base, bytes, rfl, -⟩ spares
  have same : pcieRingDesc (ringIndex start.used (2 ^ 32 % num.toNat)) num =
      pcieRingDesc (ringIndex start.used 0) num := by
    unfold ringSlot at first second
    rw [pcieRingDesc, pcieRingDesc, first, second]
  have word : ∀ place ∈ s.written, load32 w.bar place.1 = place.2 := shows.held
  rw [draft.written] at word
  have cmd : load32 w.bar (pcieRingDesc (ringIndex start.used (2 ^ 32 % num.toNat)) num) =
      ringCmdData := word (_, _) List.mem_cons_self
  have blkid : load32 w.bar (pcieRingDesc (ringIndex start.used (2 ^ 32 % num.toNat)) num + 16) =
      BitVec.ofNat 32 (2 ^ 32 % num.toNat) % maxBlk :=
    word (_, _) (List.mem_mapIdx.mpr ⟨4, by simp, rfl⟩)
  rw [same] at cmd blkid
  apply spares _ (shows.unconsumed draft.ring (Nat.le_refl 0) skips) cmd
  rw [show (AmbaPci.loadDesc w.bar (pcieRingDesc (ringIndex start.used 0) num)).blkid = _ from
    blkid]

/-- A chunk that replaces the block its own descriptor names is enough. -/
theorem block_overwritten (img : FwImageDesc) (accepted : RingAccepts num maxBlk ringMapSize)
    (long : 22 ≤ num.toNat) (more : 1 < ringChunks (pcieRingXferTotal img.length)) :
    (ringMachine (craftedUser img.offset (1 % maxBlk))).CanCall
      (fun w op => ¬ SparesBlocks num w op) (pcieRingXferUser onePoll 0 ringMapSize 0 img)
      (restingRing num maxBlk 21) := by
  obtain ⟨op, next, w, run, here, base, bytes, rfl⟩ := transfer_overwrites accepted long more
  refine ⟨_, next, w, run, fun spares => ?_⟩
  have position : w.avail - num = 21 := by rw [here.avail, BitVec.add_sub_cancel]
  have pending : w.counters.pending num = 1 := by
    have distance : w.used - (w.avail - num) = 1 := by
      rw [here.used, position]
      rfl
    exact congrArg BitVec.toNat distance
  have unconsumed : Unconsumed num w (AmbaPci.loadDesc w.bar 500) := by
    refine Or.inl ⟨0, pending ▸ Nat.zero_lt_one, ?_⟩
    rw [position, ringDesc_first long]
  apply spares _ unconsumed here.cmd
  rw [show (AmbaPci.loadDesc w.bar 500).blkid = _ from here.blkid]

end Overtakes

/-- Waiting for a free descriptor also guarantees a free block exactly when the image has one chunk,
or the descriptors keep what is written into them and there are as many blocks as descriptors, or as
chunks. -/
theorem block_reuse_iff (num maxBlk : BitVec 32) (ringMapSize : BitVec 64) (img : FwImageDesc)
    (accepted : RingAccepts num maxBlk ringMapSize)
    (few : ringChunks (pcieRingXferTotal img.length) < 2 ^ 32) :
    KeepsBlocks num maxBlk ringMapSize img ↔
      ringChunks (pcieRingXferTotal img.length) ≤ 1 ∨ BlocksSuffice num maxBlk img := by
  have positive := BitVec.toNat_pos_of_ne_zero accepted.2.1
  constructor
  · intro keeps
    have impossible : ∀ (user : BitVec 64 → Byte) (used : BitVec 32),
        ¬ (ringMachine user).CanCall (fun w op => ¬ SparesBlocks num w op)
          (pcieRingXferUser onePoll 0 ringMapSize 0 img) (restingRing num maxBlk used) := by
      rintro user used ⟨op, next, w, run, overwrites⟩
      exact overwrites
        (keeps user onePoll 0 0 [] _ (restingRing_idle num maxBlk used).1 op next w run)
    by_cases one : ringChunks (pcieRingXferTotal img.length) ≤ 1
    · exact Or.inl one
    · have layout : rhDesc0Off + num.toNat * 20 ≤ ringBlockSize := by
        apply Classical.byContradiction
        intro long
        unfold rhDesc0Off ringBlockSize at long
        exact impossible _ _ (block_overwritten img accepted (by omega) (by omega))
      refine Or.inr ⟨layout, ?_, ?_⟩
      · apply Classical.byContradiction
        intro skips
        exact impossible (fun _ => 0) _
          (slots_overtaken img accepted layout (by omega) (by omega))
      · apply Classical.byContradiction
        intro short
        exact impossible (fun _ => 0) _
          (blocks_overtaken img accepted layout few (by omega) (by omega))
  · rintro (one | suffice) user t base userBase log start idle op next w run
    · exact wp_guard (transfer_copiesAlone one positive t base ringMapSize userBase idle) run
    · exact wp_guard ((transfer_keepsBlocks suffice few positive t base ringMapSize userBase).wp
        ⟨_, (idle.waits allWords_watches).follows, idle.ringed _⟩) run

/-- Two blocks for two descriptors. -/
theorem block_reuse_iff_even : KeepsBlocks 2 2 4096 ⟨0, 0, 4096⟩ :=
  (block_reuse_iff 2 2 4096 ⟨0, 0, 4096⟩ ⟨by decide, by decide, by decide⟩ (by decide)).mpr
    (Or.inr ⟨by decide, by decide, by decide⟩)

/-- Four descriptors for one block, and an image of two chunks: the second chunk goes where the
first one may still be unread. -/
theorem block_reuse_short : ¬ ∀ num maxBlk ringMapSize img, RingAccepts num maxBlk ringMapSize →
    maxBlk.toNat < 2 ^ 32 - 1 → ringChunks (pcieRingXferTotal img.length) < 2 ^ 32 →
    KeepsBlocks num maxBlk ringMapSize img := by
  intro claim
  have accepted : RingAccepts 4 1 4096 := ⟨by decide, by decide, by decide⟩
  have keeps := claim 4 1 4096 ⟨0, 0, 1024⟩ accepted (by decide) (by decide)
  obtain ⟨op, next, w, run, overwrites⟩ := blocks_overtaken ⟨0, 0, 1024⟩ accepted (by decide)
    (by decide) (by decide) (by decide)
  exact overwrites (keeps (fun _ => 0) onePoll 0 0 [] _ (restingRing_idle 4 1 0).1 op next w run)

end AmbaPci

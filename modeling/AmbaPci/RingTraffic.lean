import AmbaPci.ImagePosts
import AmbaPci.RingCounters

set_option autoImplicit false

/- The descriptors of one image on their way through the ring: what each one says and where it lies,
from the write that publishes it to its consumption. The ring is idle when the image starts. The
bytes of the ring are forgotten here: what is written is taken for what is held. -/
namespace AmbaPci

open ByteMemory (Byte)
open Interaction Interaction.Machine

/-- A published descriptor: its place in the mapping, its command and the block it names. -/
structure PostedDesc where
  off : Nat
  cmd : BitVec 32
  blkid : BitVec 32
  deriving DecidableEq, Repr

/-- The counters, the words written since the last descriptor was published, each with its place,
and the descriptors that are published and not consumed, the oldest first. -/
structure RingTraffic where
  counters : RingCounters
  written : List (Nat × BitVec 32)
  queue : List PostedDesc
  deriving DecidableEq, Repr

namespace RingTraffic

def write (s : RingTraffic) (off : Nat) (value : BitVec 32) : RingTraffic :=
  { s with written := s.written ++ [(off, value)] }

/-- The write of `used` publishes the descriptor whose five words have been written to one slot. It
is taken as written, whatever has been copied over the slot since. -/
def publish (s : RingTraffic) (used : BitVec 32) : RingTraffic where
  counters := { s.counters with used := used }
  written := []
  queue :=
    match s.written with
    | [(off, cmd), _, _, _, (last, blkid)] =>
        if last = off + 16 then s.queue ++ [⟨off, cmd, blkid⟩] else s.queue
    | _ => s.queue

/-- The endpoint consumes the oldest descriptor. -/
def consume (s : RingTraffic) : RingTraffic :=
  { s with counters := { s.counters with avail := s.counters.avail + 1 }, queue := s.queue.tail }

end RingTraffic

/-- The registers read the counters and the constants of the header, and user space has its bytes;
every other reply is free. A copy into a data block leaves no trace here, though it overwrites slots
on a ring whose slots reach into the blocks: what is proved of this machine holds of the ring's
bytes as far as the copies spare the words that matter. -/
def trafficAnswer (user : BitVec 64 → Byte) (num maxBlk : BitVec 32) (s : RingTraffic) :
    (op : Op) → op.Reply → RingTraffic → Prop
  | .readl _ _ off, value, s' =>
      s' = s ∧ (off = rhUsedOff → value = s.counters.used) ∧
        (off = rhAvailOff → value = s.counters.avail) ∧ (off = rhNumOff → value = num) ∧
        (off = rhMaxBlkOff → value = maxBlk)
  | .writel _ _ off value, _, s' =>
      s' = if off = rhUsedOff then s.publish value else s.write off value
  | .copyFromUser src length, reply, s' =>
      s' = s ∧ ∀ bytes, reply = some bytes → bytes.toList = userBytes user src length
  | _, _, s' => s' = s

/-- The ring with an endpoint that consumes what is published, in order. -/
def trafficMachine (user : BitVec 64 → Byte) (num maxBlk : BitVec 32) :
    Machine Op Op.Reply RingTraffic where
  answer := trafficAnswer user num maxBlk
  interfere s s' := s.counters.used ≠ s.counters.avail - num ∧ s' = s.consume

/-- The ring is idle, and nothing is half written. -/
structure RingTraffic.Idle (num : BitVec 32) (s : RingTraffic) : Prop where
  counters : s.counters.Idle num
  written : s.written = []
  queue : s.queue = []

/-- The descriptor of post `index` of an image: its chunks are posted first, then its command. -/
def imagePost (num maxBlk origin : BitVec 32) (img : FwImageDesc) (index : Nat) : PostedDesc where
  off := pcieRingDesc (ringIndex origin index) num
  cmd :=
    if index < ringChunks (pcieRingXferTotal img.length) then ringCmdData
    else (pcieRingTail img.type img.length).1
  blkid :=
    if index < ringChunks (pcieRingXferTotal img.length) then BitVec.ofNat 32 index % maxBlk else 0

/-- The ring after `posted` posts, of which the endpoint has consumed `consumed`. -/
structure InRing (num origin : BitVec 32) (post : Nat → PostedDesc) (posted consumed : Nat)
    (s : RingTraffic) : Prop where
  behind : consumed ≤ posted
  bounded : posted ≤ consumed + num.toNat
  used : s.counters.used = ringIndex origin posted
  avail : s.counters.avail = ringIndex origin consumed + num
  queue : s.queue = (List.range' consumed (posted - consumed)).map post

section InRing

variable {num origin : BitVec 32} {post : Nat → PostedDesc} {posted consumed : Nat}
  {s s' : RingTraffic}

theorem InRing.empty (idle : s.Idle num) : InRing num s.counters.used post 0 0 s where
  behind := Nat.le_refl 0
  bounded := Nat.zero_le _
  used := (ringIndex_zero _).symm
  avail := by
    rw [ringIndex_zero]
    exact idle.counters.symm
  queue := idle.queue

/-- A move of the endpoint: there is a descriptor to consume. -/
theorem InRing.consume (here : InRing num origin post posted consumed s)
    (more : s.counters.used ≠ s.counters.avail - num) :
    consumed < posted ∧ InRing num origin post posted (consumed + 1) s.consume := by
  have left : consumed < posted := by
    apply Nat.lt_of_le_of_ne here.behind
    intro same
    apply more
    rw [here.used, here.avail, same, BitVec.add_sub_cancel]
  have behind := here.behind
  have bounded := here.bounded
  refine ⟨left, left, by omega, here.used, ?_, ?_⟩
  · show s.counters.avail + 1 = _
    rw [here.avail, ← ringIndex_succ, BitVec.add_assoc, BitVec.add_comm num 1, ← BitVec.add_assoc]
  · show s.queue.tail = _
    rw [here.queue, ← List.map_tail, List.tail_range', Nat.sub_add_eq]

/-- A ring that is not full, by the counters. -/
theorem InRing.room (here : InRing num origin post posted consumed s)
    (apart : s.counters.avail ≠ ringIndex origin posted) : posted < consumed + num.toNat := by
  apply Nat.lt_of_le_of_ne here.bounded
  intro full
  apply apart
  rw [here.avail, full, ringIndex, ringIndex, BitVec.ofNat_add, BitVec.ofNat_toNat,
    BitVec.setWidth_eq, BitVec.add_assoc]

/-- A ring with a consumption less than `num` posts ago is not full, and says so. -/
theorem InRing.avail_ne (here : InRing num origin post posted consumed s)
    (room : posted < consumed + num.toNat) : s.counters.avail ≠ ringIndex origin posted := by
  intro same
  have position : s.counters.avail = ringIndex origin (consumed + num.toNat) := by
    rw [here.avail, ringIndex, ringIndex, BitVec.ofNat_add, BitVec.ofNat_toNat,
      BitVec.setWidth_eq, BitVec.add_assoc]
  have behind := here.behind
  have bound := num.isLt
  have wrapped := ringIndex_inj (same.symm.trans position) (by omega) (by omega)
  omega

theorem InRing.publish (here : InRing num origin post posted consumed s)
    (room : posted < consumed + num.toNat) (cmd size addrLo addrHi blkid : BitVec 32)
    (written : s.written = ([cmd, size, addrLo, addrHi, blkid].mapIdx fun k value =>
      ((post posted).off + 4 * k, value)))
    (command : (post posted).cmd = cmd) (block : (post posted).blkid = blkid)
    {used : BitVec 32} (value : used = s.counters.used) :
    InRing num origin post (posted + 1) consumed (s.publish (used + 1)) where
  behind := Nat.le_succ_of_le here.behind
  bounded := room
  used := by
    show used + 1 = _
    rw [value, here.used, ringIndex_succ]
  avail := here.avail
  queue := by
    have behind := here.behind
    have more : posted + 1 - consumed = (posted - consumed) + 1 := by omega
    have last : consumed + (posted - consumed) = posted := by omega
    rw [more, List.range'_1_concat, last, List.map_append, ← here.queue]
    subst command block
    have places : s.written =
        [((post posted).off, (post posted).cmd), ((post posted).off + 4, size),
          ((post posted).off + 8, addrLo), ((post posted).off + 12, addrHi),
          ((post posted).off + 16, (post posted).blkid)] := written
    simp only [RingTraffic.publish, places, ↓reduceIte, List.map_cons, List.map_nil]

/-- The descriptors in the ring are those of the posts between the two positions. -/
theorem InRing.mem {d : PostedDesc} (here : InRing num origin post posted consumed s)
    (inside : d ∈ s.queue) : ∃ index, consumed ≤ index ∧ index < posted ∧ d = post index := by
  rw [here.queue, List.mem_map] at inside
  obtain ⟨index, between, same⟩ := inside
  rw [List.mem_range'_1] at between
  have behind := here.behind
  exact ⟨index, between.1, by omega, same.symm⟩

theorem InRing.congr (here : InRing num origin post posted consumed s)
    (counters : s'.counters = s.counters) (queue : s'.queue = s.queue) :
    InRing num origin post posted consumed s' :=
  ⟨here.behind, here.bounded, counters ▸ here.used, counters ▸ here.avail, queue ▸ here.queue⟩

end InRing

/-! The transfer of one image, watched by a guard -/

/-- The ring between two posts. -/
def Ringed (num origin : BitVec 32) (post : Nat → PostedDesc) (posted : Nat) (s : RingTraffic) :
    Prop :=
  s.written = [] ∧ ∃ consumed, InRing num origin post posted consumed s

/-- The ring at any time of the transfer. -/
def Passing (num origin : BitVec 32) (post : Nat → PostedDesc) (posts : Nat) (s : RingTraffic) :
    Prop :=
  ∃ posted consumed, posted ≤ posts ∧ InRing num origin post posted consumed s

theorem Ringed.passing {num origin : BitVec 32} {post : Nat → PostedDesc} {posted posts : Nat}
    {s : RingTraffic} (here : Ringed num origin post posted s) (inside : posted ≤ posts) :
    Passing num origin post posts s := by
  obtain ⟨-, consumed, here⟩ := here
  exact ⟨posted, consumed, inside, here⟩

/-- The ring with room for one more descriptor, some words of which are written. -/
structure Drafting (num origin : BitVec 32) (post : Nat → PostedDesc) (posted consumed : Nat)
    (words : List (BitVec 32)) (s : RingTraffic) : Prop where
  written : s.written = words.mapIdx fun k value => ((post posted).off + 4 * k, value)
  room : posted < consumed + num.toNat
  ring : InRing num origin post posted consumed s

theorem Drafting.num_pos {num origin : BitVec 32} {post : Nat → PostedDesc} {posted consumed : Nat}
    {words : List (BitVec 32)} {s : RingTraffic}
    (draft : Drafting num origin post posted consumed words s) : 0 < num.toNat := by
  have behind := draft.ring.behind
  have room := draft.room
  omega

def Roomy (num origin : BitVec 32) (post : Nat → PostedDesc) (posted : Nat)
    (words : List (BitVec 32)) (s : RingTraffic) : Prop :=
  ∃ consumed, Drafting num origin post posted consumed words s

/-- The context before post `index`. -/
structure TrafficCtx (num maxBlk origin : BitVec 32) (index : Nat) (ring : PcieRingCtx) : Prop where
  num : ring.num = num
  maxBlk : ring.maxBlk = maxBlk
  curAvail : ring.curAvail = ringIndex origin index
  curBlk : ring.curBlk = BitVec.ofNat 32 index

/-- An operation that writes no descriptor and no block, and reads no word but the registers. -/
def Op.Bypasses : Op → Prop
  | .readl _ _ off => off = rhUsedOff ∨ off = rhAvailOff ∨ off = rhNumOff ∨ off = rhMaxBlkOff
  | .writel _ _ off _ => off = rhUsedOff
  | .memcpyToio _ _ _ _ => False
  | _ => True

/-- A guard that holds along the first `posts` posts of the transfer: whenever an operation bypasses
the ring, a word of the next descriptor is written, or the next chunk is copied. -/
structure Watches (guard : RingTraffic → Op → Prop) (num maxBlk origin : BitVec 32)
    (img : FwImageDesc) (posts : Nat) : Prop where
  quiet : ∀ s op posted consumed, posted ≤ posts →
    InRing num origin (imagePost num maxBlk origin img) posted consumed s → op.Bypasses → guard s op
  word : ∀ s fn base posted consumed words value, words.length < 5 → posted < posts →
    Drafting num origin (imagePost num maxBlk origin img) posted consumed words s →
    guard s
      (.writel fn base (pcieRingDesc (ringIndex origin posted) num + 4 * words.length) value)
  block : ∀ s base bytes posted consumed words,
    posted < ringChunks (pcieRingXferTotal img.length) → words.length = 5 →
    Drafting num origin (imagePost num maxBlk origin img) posted consumed words s →
    bytes.length = ringChunkLen (pcieRingXferTotal img.length) posted →
    guard s (.memcpyToio .postData base (pcieRingDataBlk (BitVec.ofNat 32 posted % maxBlk)) bytes)

/-- Two guards that hold along the transfer. -/
theorem Watches.and {first second : RingTraffic → Op → Prop} {num maxBlk origin : BitVec 32}
    {img : FwImageDesc} {posts : Nat} (left : Watches first num maxBlk origin img posts)
    (right : Watches second num maxBlk origin img posts) :
    Watches (fun s op => first s op ∧ second s op) num maxBlk origin img posts where
  quiet s op posted consumed inside here bypasses :=
    ⟨left.quiet s op posted consumed inside here bypasses,
      right.quiet s op posted consumed inside here bypasses⟩
  word s fn base posted consumed words value few inside draft :=
    ⟨left.word s fn base posted consumed words value few inside draft,
      right.word s fn base posted consumed words value few inside draft⟩
  block s base bytes posted consumed words inside whole draft size :=
    ⟨left.block s base bytes posted consumed words inside whole draft size,
      right.block s base bytes posted consumed words inside whole draft size⟩

/-- How far the posts have come. -/
theorem passing_watches {num maxBlk origin : BitVec 32} {img : FwImageDesc} {posts : Nat}
    (chunks : ringChunks (pcieRingXferTotal img.length) ≤ posts) :
    Watches (fun s _ => Passing num origin (imagePost num maxBlk origin img) posts s) num maxBlk
      origin img posts where
  quiet s op posted consumed inside here bypasses := ⟨posted, consumed, inside, here⟩
  word s fn base posted consumed words value few inside draft :=
    ⟨posted, consumed, Nat.le_of_lt inside, draft.ring⟩
  block s base bytes posted consumed words inside whole draft size :=
    ⟨posted, consumed, by omega, draft.ring⟩

/-- How many descriptors an image takes: one for each chunk, and its command. -/
def imagePosts (img : FwImageDesc) : Nat := ringChunks (pcieRingXferTotal img.length) + 1

section Transfer

variable {user : BitVec 64 → Byte} {num maxBlk origin : BitVec 32} {img : FwImageDesc}
  {post : Nat → PostedDesc} {guard : RingTraffic → Op → Prop} {posts : Nat}

theorem ringed_stable (posted : Nat) :
    (trafficMachine user num maxBlk).Stable (Ringed num origin post posted) := by
  rintro s s' ⟨written, consumed, here⟩ ⟨more, same⟩
  subst same
  exact ⟨written, consumed + 1, (here.consume more).2⟩

theorem passing_stable (posts : Nat) :
    (trafficMachine user num maxBlk).Stable (Passing num origin post posts) := by
  rintro s s' ⟨posted, consumed, inside, here⟩ ⟨more, same⟩
  subst same
  exact ⟨posted, consumed + 1, inside, (here.consume more).2⟩

theorem roomy_stable (posted : Nat) (words : List (BitVec 32)) :
    (trafficMachine user num maxBlk).Stable (Roomy num origin post posted words) := by
  rintro s s' ⟨consumed, written, room, here⟩ ⟨more, same⟩
  subst same
  exact ⟨consumed + 1, written, by omega, (here.consume more).2⟩

theorem sampled_stable (posted : Nat) (words : List (BitVec 32)) (used : BitVec 32) :
    (trafficMachine user num maxBlk).Stable
      fun s => Roomy num origin post posted words s ∧ used = s.counters.used := by
  rintro s s' ⟨room, value⟩ moved
  exact ⟨roomy_stable posted words s s' room moved, by rw [moved.2, value]; rfl⟩

/-- Only writes move the ring. -/
theorem traffic_kept {s s' : RingTraffic} {op : Op} {reply : op.Reply}
    (answered : (trafficMachine user num maxBlk).answer s op reply s')
    (noWrite : ∀ fn base off value, op ≠ .writel fn base off value) : s' = s := by
  cases op with
  | readl fn base off => exact answered.1
  | writel fn base off value => exact absurd rfl (noWrite fn base off value)
  | copyFromUser src length => exact answered.1
  | _ => exact answered

theorem Watches.idles (watches : Watches guard num maxBlk origin img posts) {posted : Nat}
    (inside : posted ≤ posts) :
    Idles (trafficMachine user num maxBlk) guard
      (Ringed num origin (imagePost num maxBlk origin img) posted) where
  stable := ringed_stable posted
  jiffiesReady s here := by
    obtain ⟨-, consumed, here⟩ := here
    exact watches.quiet s .jiffies posted consumed inside here trivial
  jiffies _ _ _ here clock := by rwa [traffic_kept clock nofun]
  sleepReady s here := by
    obtain ⟨-, consumed, here⟩ := here
    exact watches.quiet s .usleepRange posted consumed inside here trivial
  sleep _ _ _ here slept := by rwa [traffic_kept slept nofun]
  spinReady s here := by
    obtain ⟨-, consumed, here⟩ := here
    exact watches.quiet s .spin posted consumed inside here trivial

/-- The steps of the post that publishes descriptor `index`. -/
theorem Watches.postSteps (watches : Watches guard num maxBlk origin img posts) (fn : RingFn)
    {ring : PcieRingCtx} {index : Nat} (inside : index < posts)
    (ctx : TrafficCtx num maxBlk origin index ring) {cmd blkid : BitVec 32}
    (command : (imagePost num maxBlk origin img index).cmd = cmd)
    (block : (imagePost num maxBlk origin img index).blkid = blkid)
    (size addrLo addrHi : BitVec 32) :
    PostSteps (trafficMachine user num maxBlk) guard fn ring [cmd, size, addrLo, addrHi, blkid]
      (Ringed num origin (imagePost num maxBlk origin img) index)
      (Roomy num origin (imagePost num maxBlk origin img) index)
      (fun used s => Roomy num origin (imagePost num maxBlk origin img) index
        [cmd, size, addrLo, addrHi, blkid] s ∧ used = s.counters.used)
      (Ringed num origin (imagePost num maxBlk origin img) (index + 1)) where
  idles := watches.idles (Nat.le_of_lt inside)
  roomStable := roomy_stable index
  sampledStable := sampled_stable index _
  settled := ringed_stable (index + 1)
  availReady s here := by
    obtain ⟨-, consumed, here⟩ := here
    exact watches.quiet s _ index consumed (Nat.le_of_lt inside) here (Or.inr (Or.inl rfl))
  hit s avail s' here read apart := by
    obtain ⟨written, consumed, here⟩ := here
    have value : avail = s.counters.avail := read.2.2.1 rfl
    have same : s' = s := read.1
    rw [value, ctx.curAvail] at apart
    rw [same]
    exact ⟨consumed, written, here.room apart, here⟩
  miss s avail s' here read := by rwa [traffic_kept read nofun]
  wordReady s written value few here := by
    obtain ⟨consumed, draft⟩ := here
    rw [ctx.curAvail, ctx.num]
    exact watches.word s fn ring.base index consumed written value few inside draft
  word s written value reply s' few here stored := by
    obtain ⟨consumed, places, room, here⟩ := here
    have high : pcieRingDesc ring.curAvail ring.num + 4 * written.length ≠ rhUsedOff := by
      unfold pcieRingDesc rhDesc0Off rhUsedOff
      omega
    have there : s' = s.write (pcieRingDesc ring.curAvail ring.num + 4 * written.length) value :=
      Eq.trans stored (if_neg high)
    rw [there]
    refine ⟨consumed, ?_, room, here.congr rfl rfl⟩
    rw [List.mapIdx_concat, ← places, ctx.curAvail, ctx.num]
    rfl
  usedReady s here := by
    obtain ⟨consumed, -, -, here⟩ := here
    exact watches.quiet s _ index consumed (Nat.le_of_lt inside) here (Or.inl rfl)
  used s value s' here read := by
    have same : s' = s := read.1
    rw [same]
    exact ⟨here, read.2.1 rfl⟩
  publishReady s value here := by
    obtain ⟨⟨consumed, -, -, here⟩, -⟩ := here
    exact watches.quiet s _ index consumed (Nat.le_of_lt inside) here rfl
  publish s value reply s' here stored := by
    obtain ⟨⟨consumed, places, room, here⟩, same⟩ := here
    have there : s' = s.publish (value + 1) := Eq.trans stored (if_pos rfl)
    rw [there]
    exact ⟨rfl, consumed, here.publish room _ _ _ _ _ places command block same⟩

theorem TrafficCtx.next {index : Nat} {ring : PcieRingCtx}
    (ctx : TrafficCtx num maxBlk origin index ring) :
    TrafficCtx num maxBlk origin (index + 1) ring.posted where
  num := ctx.num
  maxBlk := ctx.maxBlk
  curAvail := by
    show ring.curAvail + 1 = _
    rw [ctx.curAvail, ringIndex_succ]
  curBlk := by
    show ring.curBlk + 1 = _
    rw [ctx.curBlk, BitVec.ofNat_add]
    rfl

/-- Setting up the context on the idle ring. -/
theorem pcieRingCtxInit_traffic (watches : Watches guard num maxBlk origin img posts)
    (base : Mapping) (ringMapSize : BitVec 64) {s : RingTraffic}
    (holds : Ringed num origin (imagePost num maxBlk origin img) 0 s) :
    (trafficMachine user num maxBlk).wp guard
      (fun init s' => Ringed num origin (imagePost num maxBlk origin img) 0 s' ∧
        (init.1 = 0 → TrafficCtx num maxBlk origin 0 init.2))
      (pcieRingCtxInit base ringMapSize) s := by
  have stable : (trafficMachine user num maxBlk).Stable
      (Ringed num origin (imagePost num maxBlk origin img) 0) := ringed_stable 0
  have ready : ∀ s' off, Op.Bypasses (.readl .ctxInit base off) →
      Ringed num origin (imagePost num maxBlk origin img) 0 s' →
      guard s' (.readl .ctxInit base off) := by
    intro s' off register here
    obtain ⟨-, consumed, here⟩ := here
    exact watches.quiet s' _ 0 consumed (Nat.zero_le _) here register
  have refuse : ∀ s, Ringed num origin (imagePost num maxBlk origin img) 0 s →
      (trafficMachine user num maxBlk).wp guard
        (fun init s' => Ringed num origin (imagePost num maxBlk origin img) 0 s' ∧
          (init.1 = 0 → TrafficCtx num maxBlk origin 0 init.2)) (.done (-einval, {})) s :=
    fun s here => wp_done stable here fun s' here' =>
      ⟨here', fun zero => absurd zero (show (-einval : Int) ≠ 0 by decide)⟩
  apply wp_perform stable holds fun s' here => ready s' rhNumOff (by simp [Op.Bypasses]) here
  intro s₁ n s₂ here₁ readNum
  have sameNum : n = num := readNum.2.2.2.1 rfl
  rw [traffic_kept readNum nofun]
  apply wp_perform stable here₁ fun s' here => ready s' rhMaxBlkOff (by simp [Op.Bypasses]) here
  intro s₃ m s₄ here₃ readMaxBlk
  have sameMaxBlk : m = maxBlk := readMaxBlk.2.2.2.2 rfl
  rw [traffic_kept readMaxBlk nofun]
  split
  · exact refuse s₃ here₃
  · split
    · exact refuse s₃ here₃
    · apply wp_perform stable here₃ fun s' here => ready s' rhAvailOff (by simp [Op.Bypasses]) here
      intro s₅ a s₆ here₅ readAvail
      have value : a = s₅.counters.avail := readAvail.2.2.1 rfl
      rw [traffic_kept readAvail nofun]
      obtain ⟨consumed, inRing⟩ := here₅.2
      have none : consumed = 0 := Nat.le_zero.mp inRing.behind
      subst none
      refine wp_done stable here₅ fun s' here' => ⟨here', fun _ => ⟨sameNum, sameMaxBlk, ?_, rfl⟩⟩
      show a - n = _
      rw [value, sameNum, inRing.avail, BitVec.add_sub_cancel]

theorem imagePost_chunk {index : Nat}
    (inside : index < ringChunks (pcieRingXferTotal img.length)) :
    (imagePost num maxBlk origin img index).cmd = ringCmdData ∧
      (imagePost num maxBlk origin img index).blkid = BitVec.ofNat 32 index % maxBlk :=
  ⟨if_pos inside, if_pos inside⟩

theorem imagePost_command :
    (imagePost num maxBlk origin img (ringChunks (pcieRingXferTotal img.length))).cmd =
        (pcieRingTail img.type img.length).1 ∧
      (imagePost num maxBlk origin img (ringChunks (pcieRingXferTotal img.length))).blkid = 0 :=
  ⟨if_neg (Nat.lt_irrefl _), if_neg (Nat.lt_irrefl _)⟩

theorem Watches.polls (watches : Watches guard num maxBlk origin img posts) (base : Mapping)
    {posted : Nat} (inside : posted ≤ posts) :
    PollReads (trafficMachine user num maxBlk) guard base
      (Ringed num origin (imagePost num maxBlk origin img) posted)
      (fun _ => Ringed num origin (imagePost num maxBlk origin img) posted)
      (fun _ _ => Ringed num origin (imagePost num maxBlk origin img) posted)
      (Ringed num origin (imagePost num maxBlk origin img) posted) := by
  have ready : ∀ s off, Op.Bypasses (.readl .xferPoll base off) →
      Ringed num origin (imagePost num maxBlk origin img) posted s →
      guard s (.readl .xferPoll base off) := by
    intro s off register here
    obtain ⟨-, consumed, here⟩ := here
    exact watches.quiet s _ posted consumed inside here register
  exact
    { usedStable := fun _ => ringed_stable posted
      numStable := fun _ _ => ringed_stable posted
      settled := ringed_stable posted
      usedReady := fun s here => ready s rhUsedOff (by simp [Op.Bypasses]) here
      readUsed := fun _ _ _ here read => by rwa [traffic_kept read nofun]
      numReady := fun _ s here => ready s rhNumOff (by simp [Op.Bypasses]) here
      readNum := fun _ _ _ _ here read => by rwa [traffic_kept read nofun]
      availReady := fun _ _ s here => ready s rhAvailOff (by simp [Op.Bypasses]) here
      idle := fun _ _ _ _ _ here read _ => by rwa [traffic_kept read nofun]
      busy := fun _ _ _ _ _ here read _ => by rwa [traffic_kept read nofun] }

theorem ringChunkPass_traffic (watches : Watches guard num maxBlk origin img posts) (t : Timing)
    (userBase : BitVec 64) {chunk : Nat} (watched : chunk < posts)
    (inside : chunk < ringChunks (pcieRingXferTotal img.length)) {ring : PcieRingCtx}
    (ctx : TrafficCtx num maxBlk origin chunk ring) {s : RingTraffic}
    (holds : Ringed num origin (imagePost num maxBlk origin img) chunk s) :
    (trafficMachine user num maxBlk).wp guard
      (fun posted s' =>
        (posted.1 ≠ 0 ∧ Ringed num origin (imagePost num maxBlk origin img) chunk s') ∨
          (TrafficCtx num maxBlk origin (chunk + 1) posted.2 ∧
            Ringed num origin (imagePost num maxBlk origin img) (chunk + 1) s'))
      (ringChunkPass t (userBase + img.offset) img.length (pcieFwLoadAddr img.type)
        (pcieRingXferTotal img.length) (ringPos (pcieRingXferTotal img.length) chunk) ring) s := by
  have stable : (trafficMachine user num maxBlk).Stable
      (Ringed num origin (imagePost num maxBlk origin img) chunk) := ringed_stable chunk
  have copyReady : ∀ s length, Ringed num origin (imagePost num maxBlk origin img) chunk s →
      guard s (.copyFromUser (userBase + img.offset +
        ringPos (pcieRingXferTotal img.length) chunk) length) := by
    intro s length here
    obtain ⟨-, consumed, here⟩ := here
    exact watches.quiet s _ chunk consumed (Nat.le_of_lt watched) here trivial
  apply wp_seq (pcieRingFillChunk_wp stable (fun _ _ => True) _ img.length _ _ copyReady
    (fun s' _ _ s'' here copied => ⟨by rwa [traffic_kept copied nofun], fun _ _ => trivial⟩) holds)
  intro filled s' bounce
  cases filled with
  | none => exact wp_done stable bounce.1 fun _ here => Or.inl ⟨show -efault ≠ 0 by decide, here⟩
  | some bytes =>
      have block : (imagePost num maxBlk origin img chunk).blkid = ring.curBlk % ring.maxBlk := by
        rw [(imagePost_chunk inside).2, ctx.curBlk, ctx.maxBlk]
      refine wp_mono (pcieRingPostData_wp (watches.postSteps .postData watched ctx
        (imagePost_chunk inside).1 block _ _ _) (fun s here => ?_)
        (fun s reply s'' here copied => by rwa [traffic_kept copied nofun]) t bounce.1) ?_
      · obtain ⟨consumed, draft⟩ := here
        rw [ctx.curBlk, ctx.maxBlk]
        refine watches.block s ring.base bytes chunk consumed _ inside rfl draft ?_
        rw [(bounce.2 bytes rfl).length, pcieRingChunkSize_toNat inside]
      · intro posted s'' result
        rcases result with ⟨same, here⟩ | failed
        · rw [same]
          exact Or.inr ⟨ctx.next, here⟩
        · exact Or.inl failed

/-- The transfer can end after any number of posts. -/
theorem passing_done (ret : Int) {posted : Nat} {s : RingTraffic} (inside : posted ≤ imagePosts img)
    (here : Ringed num origin (imagePost num maxBlk origin img) posted s) :
    (trafficMachine user num maxBlk).wp guard
      (fun _ => Passing num origin (imagePost num maxBlk origin img) (imagePosts img))
      (.done ret) s :=
  wp_done (passing_stable (imagePosts img)) (here.passing inside) fun _ here' => here'

theorem Watches.stages (watches : Watches guard num maxBlk origin img (imagePosts img)) (t : Timing)
    (base : Mapping) (ringMapSize userBase : BitVec 64) :
    XferStages (trafficMachine user num maxBlk) guard t base ringMapSize userBase img
      (Ringed num origin (imagePost num maxBlk origin img) 0)
      (fun chunk ring s => TrafficCtx num maxBlk origin chunk ring ∧
        Ringed num origin (imagePost num maxBlk origin img) chunk s)
      (fun _ => Passing num origin (imagePost num maxBlk origin img) (imagePosts img)) where
  startStable := ringed_stable 0
  stable chunk ring s s' here moved := ⟨here.1, ringed_stable chunk s s' here.2 moved⟩
  allocReady s here := by
    obtain ⟨-, consumed, here⟩ := here
    exact watches.quiet s _ 0 consumed (Nat.zero_le _) here trivial
  alloc s reply s' here allocated := by rwa [traffic_kept allocated nofun]
  refused s here := passing_done _ (Nat.zero_le _) here
  init s here := by
    apply wp_mono (pcieRingCtxInit_traffic watches base ringMapSize here)
    intro init s' ready
    split
    · exact passing_done _ (Nat.zero_le _) ready.1
    · rename_i zero
      exact ⟨ready.2 (Decidable.not_not.mp zero), ready.1⟩
  pass chunk ring s inside here := by
    apply wp_mono (ringChunkPass_traffic watches t userBase (Nat.lt_succ_of_lt inside) inside here.1
      here.2)
    intro posted s' next
    rcases next with ⟨failed, here'⟩ | next
    · rw [if_pos failed]
      exact passing_done _ (Nat.le_succ_of_le (Nat.le_of_lt inside)) here'
    · split
      · exact passing_done _ (Nat.le_succ_of_le inside) next.2
      · exact next
  close ring s here := by
    apply wp_mono (pcieRingPostCmd_wp (watches.postSteps .postCmd (Nat.lt_succ_self _) here.1
      imagePost_command.1 imagePost_command.2 _ _ _) t here.2)
    intro closed s' result
    rcases result with ⟨same, here'⟩ | ⟨failed, here'⟩
    · rw [if_neg (by simp [same])]
      have inside := Nat.le_refl (imagePosts img)
      apply wp_mono (pcieRingXferPoll_wp (watches.idles inside) (watches.polls base inside) t
        5000 here')
      intro ret s'' polled
      rcases polled with ⟨-, here''⟩ | ⟨-, here''⟩
      · exact here''.passing inside
      · exact here''.passing inside
    · rw [if_pos failed]
      exact passing_done _ (Nat.le_succ _) here'

/-- Whatever the guard watches holds along the whole transfer. -/
theorem Watches.transfer (watches : Watches guard num maxBlk origin img (imagePosts img))
    (t : Timing) (base : Mapping) (ringMapSize userBase : BitVec 64) {s : RingTraffic}
    (holds : Ringed num origin (imagePost num maxBlk origin img) 0 s) :
    (trafficMachine user num maxBlk).wp guard
      (fun _ => Passing num origin (imagePost num maxBlk origin img) (imagePosts img))
      (pcieRingXferUser t base ringMapSize userBase img) s :=
  (watches.stages t base ringMapSize userBase).wp holds

end Transfer

end AmbaPci

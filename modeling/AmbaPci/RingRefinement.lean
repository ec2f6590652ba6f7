import AmbaPci.RingTraffic
import AmbaPci.RingWorld

set_option autoImplicit false

/- How the traffic of one image shows in the bytes of the ring. The descriptors that are remembered
there are the ones the ring holds as long as no write touches their words: each result names the
words it relies on. -/
namespace AmbaPci

open ByteMemory
open Interaction Interaction.Machine

/-- The counters as the registers show them. -/
def RingWorld.counters (w : RingWorld) : RingCounters := ⟨w.used, w.avail⟩

/-- The words of a descriptor that are remembered, with their places. -/
def PostedDesc.words (d : PostedDesc) : List (Nat × BitVec 32) :=
  [(d.off, d.cmd), (d.off + 16, d.blkid)]

/-- No word is relied on. -/
def noWords (_ : RingTraffic) : List (Nat × BitVec 32) := []

/-- The words of every descriptor, published or half written. -/
def allWords (s : RingTraffic) : List (Nat × BitVec 32) :=
  s.written ++ s.queue.flatMap PostedDesc.words

/-- The registers show the counters and the constants of the header, and the watched words lie in
the ring, behind the header. -/
structure RingShows (num maxBlk : BitVec 32) (watched : RingTraffic → List (Nat × BitVec 32))
    (w : RingWorld) (s : RingTraffic) : Prop where
  counters : w.counters = s.counters
  num : w.num = num
  maxBlk : w.maxBlk = maxBlk
  high : ∀ place ∈ watched s, rhDesc0Off ≤ place.1
  held : ∀ place ∈ watched s, load32 w.bar place.1 = place.2

/-- The operation reads nothing but registers, and writes `used` or clear of the header and of the
watched words. -/
def Spares (watched : RingTraffic → List (Nat × BitVec 32)) (s : RingTraffic) : Op → Prop
  | .readl fn base off => Op.Bypasses (.readl fn base off)
  | .writel _ _ off _ => off = rhUsedOff ∨
      (rhDesc0Off ≤ off ∧ ∀ place ∈ watched s, Apart off 4 place.1 4)
  | .memcpyToio _ _ off bytes =>
      rhDesc0Off ≤ off ∧ ∀ place ∈ watched s, Apart off bytes.length place.1 4
  | _ => True

/-- What is watched comes from the words as they are written, and is dropped again. -/
structure WatchesWords (watched : RingTraffic → List (Nat × BitVec 32)) : Prop where
  start : ∀ counters, watched ⟨counters, [], []⟩ = []
  write : ∀ s off value, ∀ place ∈ watched (s.write off value),
    place ∈ watched s ∨ place = (off, value)
  publish : ∀ s value, watched (s.publish value) ⊆ watched s
  consume : ∀ s, watched s.consume ⊆ watched s

theorem noWords_watches : WatchesWords noWords where
  start _ := rfl
  write _ _ _ _ member := Or.inl member
  publish _ _ := List.Subset.refl _
  consume _ := List.Subset.refl _

theorem written_watches : WatchesWords RingTraffic.written where
  start _ := rfl
  write s off value place member := by
    rcases List.mem_append.mp member with old | new
    · exact Or.inl old
    · exact Or.inr (List.mem_singleton.mp new)
  publish _ _ := List.nil_subset _
  consume _ := List.Subset.refl _

theorem allWords_watches : WatchesWords allWords where
  start _ := rfl
  write s off value place member := by
    rcases List.mem_append.mp member with written | queued
    · rcases List.mem_append.mp written with old | new
      · exact Or.inl (List.mem_append_left _ old)
      · exact Or.inr (List.mem_singleton.mp new)
    · exact Or.inl (List.mem_append_right _ queued)
  publish s value := by
    intro place member
    have queued : place ∈ (s.publish value).queue.flatMap PostedDesc.words := member
    unfold RingTraffic.publish at queued
    dsimp only at queued
    split at queued
    · rename_i off cmd _ _ _ last blkid words
      split at queued
      · rename_i behind
        rw [List.flatMap_append, List.mem_append] at queued
        rcases queued with old | new
        · exact List.mem_append_right _ old
        · apply List.mem_append_left
          rw [words]
          simp only [List.flatMap_cons, List.flatMap_nil, PostedDesc.words, List.append_nil,
            List.mem_cons, List.not_mem_nil, or_false] at new
          rcases new with rfl | rfl
          · exact List.mem_cons_self
          · rw [behind]
            simp
      · exact List.mem_append_right _ queued
    · exact List.mem_append_right _ queued
  consume s := by
    intro place member
    rcases List.mem_append.mp member with written | queued
    · exact List.mem_append_left _ written
    · obtain ⟨d, inside, here⟩ := List.mem_flatMap.mp queued
      exact List.mem_append_right _
        (List.mem_flatMap.mpr ⟨d, List.mem_of_mem_tail inside, here⟩)

/-! What a transfer spares -/

section Spares

variable {num maxBlk origin : BitVec 32} {img : FwImageDesc}
  {watched : RingTraffic → List (Nat × BitVec 32)} {posts : Nat}

/-- Whatever bypasses the ring spares the words in it. -/
theorem spares_of_bypasses {s : RingTraffic} {op : Op} (bypasses : op.Bypasses) :
    Spares watched s op := by
  cases op with
  | readl fn base off => exact bypasses
  | writel fn base off value => exact Or.inl bypasses
  | memcpyToio fn base off bytes => exact bypasses.elim
  | _ => trivial

/-- The words written so far lie in the slot of the next descriptor. -/
theorem Drafting.place {posted consumed : Nat} {words : List (BitVec 32)} {s : RingTraffic}
    (draft : Drafting num origin (imagePost num maxBlk origin img) posted consumed words s)
    {place : Nat × BitVec 32} (member : place ∈ s.written) :
    ∃ k < words.length, place.1 = pcieRingDesc (ringIndex origin posted) num + 4 * k := by
  rw [draft.written, List.mem_mapIdx] at member
  obtain ⟨k, inside, rfl⟩ := member
  exact ⟨k, inside, rfl⟩

/-- The header is spared, whatever it says. -/
theorem noWords_spares (positive : 0 < maxBlk.toNat) :
    Watches (Spares noWords) num maxBlk origin img posts where
  quiet s op posted consumed inside here bypasses := spares_of_bypasses bypasses
  word s fn base posted consumed words value few inside draft :=
    Or.inr ⟨by rw [pcieRingDesc]; omega, nofun⟩
  block s base bytes posted consumed words inside whole draft size := by
    have behind := dataBlk_ge maxBlk (BitVec.ofNat 32 posted) positive
    exact ⟨by rw [rhDesc0Off]; omega, nofun⟩

/-- A descriptor that is being written is spared where the slots end before the first block. -/
theorem written_spares (layout : rhDesc0Off + num.toNat * 20 ≤ ringBlockSize)
    (positive : 0 < maxBlk.toNat) :
    Watches (Spares RingTraffic.written) num maxBlk origin img posts where
  quiet s op posted consumed inside here bypasses := spares_of_bypasses bypasses
  word s fn base posted consumed words value few inside draft := by
    refine Or.inr ⟨by rw [pcieRingDesc]; omega, fun place member => ?_⟩
    obtain ⟨k, before, same⟩ := draft.place member
    rw [same]
    unfold Apart
    omega
  block s base bytes posted consumed words inside whole draft size := by
    have behind := dataBlk_ge maxBlk (BitVec.ofNat 32 posted) positive
    refine ⟨by rw [rhDesc0Off]; omega, fun place member => ?_⟩
    obtain ⟨k, before, same⟩ := draft.place member
    have below := pcieRingDesc_lt (ringIndex origin posted) draft.num_pos layout
    rw [same]
    unfold Apart
    omega

end Spares

section RingShows

variable {num maxBlk : BitVec 32} {watched : RingTraffic → List (Nat × BitVec 32)} {w : RingWorld}
  {s : RingTraffic}

/-- What is written behind the header and beside the watched words hides nothing. -/
theorem RingShows.frame (shows : RingShows num maxBlk watched w s) {w' : RingWorld}
    (header : ∀ cell < rhDesc0Off, w'.bar cell = w.bar cell)
    (words : ∀ place ∈ watched s, load32 w'.bar place.1 = load32 w.bar place.1) :
    RingShows num maxBlk watched w' s := by
  have register : ∀ off, off + 4 ≤ rhDesc0Off → load32 w'.bar off = load32 w.bar off := by
    intro off low
    apply load32_congr
    intro index inside
    exact header _ (by omega)
  have used : w'.used = w.used := register rhUsedOff (by decide)
  have avail : w'.avail = w.avail := register rhAvailOff (by decide)
  exact
    { counters := by
        rw [← shows.counters, RingWorld.counters, used, avail]
        rfl
      num := (register rhNumOff (by decide)).trans shows.num
      maxBlk := (register rhMaxBlkOff (by decide)).trans shows.maxBlk
      high := shows.high
      held := fun place member => (words place member).trans (shows.held place member) }

/-- A word of the next descriptor is written. -/
theorem RingShows.write (watches : WatchesWords watched) (shows : RingShows num maxBlk watched w s)
    {off : Nat} (high : rhDesc0Off ≤ off) (apart : ∀ place ∈ watched s, Apart off 4 place.1 4)
    (value : BitVec 32) :
    RingShows num maxBlk watched { w with bar := store32 w.bar off value } (s.write off value) := by
  have framed : RingShows num maxBlk watched { w with bar := store32 w.bar off value } s :=
    shows.frame (fun cell low => store32_outside _ _ _ _ (by omega))
      fun place member => load32_store32_apart _ _ _ _ (apart place member)
  refine ⟨framed.counters, framed.num, framed.maxBlk, fun place member => ?_,
    fun place member => ?_⟩
  · rcases watches.write s off value place member with old | rfl
    · exact framed.high place old
    · exact high
  · rcases watches.write s off value place member with old | rfl
    · exact framed.held place old
    · exact load32_store32_same _ _ _

/-- A register is written. -/
theorem RingShows.register (shows : RingShows num maxBlk watched w s) {s' : RingTraffic} {off : Nat}
    (value : BitVec 32) (place : off = rhUsedOff ∨ off = rhAvailOff)
    (counters : (⟨load32 (store32 w.bar off value) rhUsedOff,
      load32 (store32 w.bar off value) rhAvailOff⟩ : RingCounters) = s'.counters)
    (fewer : watched s' ⊆ watched s) {w' : RingWorld} (bar : w'.bar = store32 w.bar off value) :
    RingShows num maxBlk watched w' s' := by
  have low : off + 4 ≤ rhNumOff := by
    rcases place with rfl | rfl
    · decide
    · decide
  have behind : ∀ other, rhNumOff ≤ other → load32 w'.bar other = load32 w.bar other := by
    intro other above
    rw [bar]
    apply load32_store32_apart
    unfold Apart
    omega
  refine ⟨?_, (behind rhNumOff (Nat.le_refl _)).trans shows.num,
    (behind rhMaxBlkOff (by decide)).trans shows.maxBlk, ?_, ?_⟩
  · rw [← counters, ← bar]
    rfl
  · intro place member
    exact shows.high place (fewer member)
  · intro place member
    have above := shows.high place (fewer member)
    have header : rhNumOff ≤ rhDesc0Off := by decide
    exact (behind place.1 (by omega)).trans (shows.held place (fewer member))

theorem RingShows.publish (watches : WatchesWords watched)
    (shows : RingShows num maxBlk watched w s) (value : BitVec 32) :
    RingShows num maxBlk watched { w with bar := store32 w.bar rhUsedOff value }
      (s.publish value) := by
  refine shows.register value (Or.inl rfl) ?_ (watches.publish s value) rfl
  rw [load32_store32_same, load32_store32_apart _ _ _ _ (by decide)]
  exact congrArg (RingCounters.mk value) (congrArg RingCounters.avail shows.counters)

theorem RingShows.consume (watches : WatchesWords watched)
    (shows : RingShows num maxBlk watched w s) {w' : RingWorld}
    (bar : w'.bar = store32 w.bar rhAvailOff (w.avail + 1)) :
    RingShows num maxBlk watched w' s.consume := by
  refine shows.register (w.avail + 1) (Or.inr rfl) ?_ (watches.consume s) bar
  rw [load32_store32_same, load32_store32_apart _ _ _ _ (by decide)]
  have used : w.used = s.counters.used := congrArg RingCounters.used shows.counters
  have avail : w.avail = s.counters.avail := congrArg RingCounters.avail shows.counters
  rw [avail]
  exact congrArg (RingCounters.mk · (s.counters.avail + 1)) used

end RingShows

/-! The traffic follows the ring -/

/-- The words of the published descriptors are watched. -/
def WatchesQueue (watched : RingTraffic → List (Nat × BitVec 32)) : Prop :=
  ∀ s : RingTraffic, ∀ d ∈ s.queue, ∀ place ∈ d.words, place ∈ watched s

theorem allWords_watchesQueue : WatchesQueue allWords :=
  fun _ d inside _ here => List.mem_append_right _ (List.mem_flatMap.mpr ⟨d, inside, here⟩)

/-- The ring shows the traffic, and the endpoint is busy with the oldest descriptor, if it is. -/
structure Follows (num maxBlk : BitVec 32) (watched : RingTraffic → List (Nat × BitVec 32))
    (w : RingWorld) (s : RingTraffic) : Prop where
  shows : RingShows num maxBlk watched w s
  busy : w.phase ≠ .waiting → s.queue ≠ []
  fetched : WatchesQueue watched → ∀ desc d, w.phase = .fetched desc → s.queue.head? = some d →
    desc.cmd = d.cmd ∧ desc.blkid = d.blkid

section Follows

variable {user : BitVec 64 → Byte} {num maxBlk origin : BitVec 32} {img : FwImageDesc} {posts : Nat}
  {watched : RingTraffic → List (Nat × BitVec 32)} {w w' : RingWorld} {s : RingTraffic}

theorem InRing.queue_ne_nil {post : Nat → PostedDesc} {posted consumed : Nat}
    (here : InRing num origin post posted consumed s) :
    s.queue ≠ [] ↔ s.counters.used ≠ s.counters.avail - num := by
  have behind := here.behind
  have bounded := here.bounded
  have bound := num.isLt
  rw [here.used, here.avail, BitVec.add_sub_cancel, here.queue, ne_eq, List.map_eq_nil_iff,
    List.range'_eq_nil_iff]
  constructor
  · intro some same
    have equal := ringIndex_inj same.symm behind (by omega)
    omega
  · intro apart none
    apply apart
    rw [show posted = consumed by omega]

/-- The oldest descriptor lies at the position of the endpoint. -/
theorem InRing.head {posted consumed : Nat} {d : PostedDesc}
    (here : InRing num origin (imagePost num maxBlk origin img) posted consumed s)
    (oldest : s.queue.head? = some d) :
    d.off = pcieRingDesc (s.counters.avail - num) num ∧ d ∈ s.queue := by
  refine ⟨?_, List.mem_of_head? oldest⟩
  rw [here.queue, List.head?_map, Option.map_eq_some_iff] at oldest
  obtain ⟨index, first, same⟩ := oldest
  have position : index = consumed := by
    rw [List.head?_range'] at first
    split at first
    · cases first
    · exact (Option.some.inj first).symm
  rw [← same, position, here.avail, BitVec.add_sub_cancel]
  rfl

/-- A step of the endpoint. -/
theorem Follows.epStep (watches : WatchesWords watched) (follows : Follows num maxBlk watched w s)
    (here : Passing num origin (imagePost num maxBlk origin img) posts s) (step : EpStep w w') :
    ∃ s', (trafficMachine user num maxBlk).Drift s s' ∧ Follows num maxBlk watched w' s' := by
  obtain ⟨posted, consumed, -, inRing⟩ := here
  have shows := follows.shows
  have used : w.used = s.counters.used := congrArg RingCounters.used shows.counters
  have avail : w.avail = s.counters.avail := congrArg RingCounters.avail shows.counters
  cases step with
  | fetch waiting published =>
      rw [used, avail, shows.num] at published
      refine ⟨s, .refl, ⟨shows.counters, shows.num, shows.maxBlk, shows.high, shows.held⟩,
        fun _ => inRing.queue_ne_nil.mpr published, ?_⟩
      rintro queued desc d ⟨⟩ oldest
      obtain ⟨place, inside⟩ := inRing.head oldest
      have held : ∀ word ∈ d.words, load32 w.bar word.1 = word.2 :=
        fun word member => shows.held word (queued s d inside word member)
      rw [avail, shows.num, ← place]
      exact ⟨held (d.off, d.cmd) (by simp [PostedDesc.words]),
        held (d.off + 16, d.blkid) (by simp [PostedDesc.words])⟩
  | execute desc fetched =>
      refine ⟨s, .refl, ⟨shows.counters, shows.num, shows.maxBlk, shows.high, shows.held⟩,
        fun _ => follows.busy (by rw [fetched]; exact nofun), ?_⟩
      exact fun _ _ _ impossible => nomatch impossible
  | advance executed =>
      have more := inRing.queue_ne_nil.mp (follows.busy (by rw [executed]; exact nofun))
      refine ⟨s.consume, .single ⟨more, rfl⟩, shows.consume watches rfl, ?_, ?_⟩
      · exact fun busy => absurd rfl busy
      · exact fun _ _ _ impossible => nomatch impossible

/-- The bytes of a block are copied while the endpoint goes on. -/
theorem Follows.copy (watches : WatchesWords watched) {off : Nat} {bytes : List Byte}
    (copied : CopyToio off bytes w w')
    (ready : ∀ s', (trafficMachine user num maxBlk).Drift s s' →
      Passing num origin (imagePost num maxBlk origin img) posts s' ∧ rhDesc0Off ≤ off ∧
        ∀ place ∈ watched s', Apart off bytes.length place.1 4)
    (follows : Follows num maxBlk watched w s) :
    ∃ s', (trafficMachine user num maxBlk).Drift s s' ∧ Follows num maxBlk watched w' s' := by
  induction copied generalizing s with
  | done off w => exact ⟨s, .refl, follows⟩
  | store off byte rest w w' later ih =>
      apply ih
      · intro s' moved
        obtain ⟨passing, high, apart⟩ := ready s' moved
        refine ⟨passing, by omega, fun place member => ?_⟩
        have spared := apart place member
        unfold Apart at spared ⊢
        rw [List.length_cons] at spared
        omega
      · obtain ⟨-, high, apart⟩ := ready s .refl
        have stored : ∀ cell, cell ≠ off → storeBytes w.bar off [byte] cell = w.bar cell := by
          intro cell outside
          apply storeBytes_outside
          rw [List.length_singleton]
          omega
        refine ⟨follows.shows.frame (fun cell low => stored cell (by omega))
          (fun place member => load32_congr fun index inside => stored _ ?_), follows.busy,
          follows.fetched⟩
        have spared := apart place member
        unfold Apart at spared
        rw [List.length_cons] at spared
        omega
  | interfere off bytes w w₁ w' moved later ih =>
      obtain ⟨s₁, drift, follows₁⟩ := follows.epStep watches (ready s .refl).1 moved
      obtain ⟨s₂, drift', follows₂⟩ := ih (fun s' after => ready s' (drift.trans after)) follows₁
      exact ⟨s₂, drift.trans drift', follows₂⟩

/-- The registers read alike. -/
theorem RingShows.readl (shows : RingShows num maxBlk watched w s) (off : Nat) :
    (off = rhUsedOff → load32 w.bar off = s.counters.used) ∧
      (off = rhAvailOff → load32 w.bar off = s.counters.avail) ∧
      (off = rhNumOff → load32 w.bar off = num) ∧
      (off = rhMaxBlkOff → load32 w.bar off = maxBlk) := by
  refine ⟨?_, ?_, ?_, ?_⟩
  · rintro rfl
    exact congrArg RingCounters.used shows.counters
  · rintro rfl
    exact congrArg RingCounters.avail shows.counters
  · rintro rfl
    exact shows.num
  · rintro rfl
    exact shows.maxBlk

/-- A publication goes behind what the endpoint is busy with. -/
theorem Follows.publish (watches : WatchesWords watched) (follows : Follows num maxBlk watched w s)
    (value : BitVec 32) :
    Follows num maxBlk watched { w with bar := store32 w.bar rhUsedOff value }
      (s.publish value) := by
  have grown : ∃ more, (s.publish value).queue = s.queue ++ more := by
    unfold RingTraffic.publish
    dsimp only
    split
    · split
      · exact ⟨_, rfl⟩
      · exact ⟨[], (List.append_nil _).symm⟩
    · exact ⟨[], (List.append_nil _).symm⟩
  obtain ⟨more, queue⟩ := grown
  refine ⟨follows.shows.publish watches value, fun busy => ?_, fun queued desc d fetched oldest =>
    ?_⟩
  · rw [queue]
    exact List.append_ne_nil_of_left_ne_nil (follows.busy busy) more
  · have some := follows.busy (by rw [show w.phase = _ from fetched]; exact nofun)
    rw [queue, List.head?_append, List.head?_eq_some_head some, Option.some_or,
      ← List.head?_eq_some_head some] at oldest
    exact follows.fetched queued desc d fetched oldest

/-- Where every operation spares the watched words, the traffic simulates the ring. -/
theorem follows_simulates (watches : WatchesWords watched) {guard : RingTraffic → Op → Prop}
    (spares : ∀ s op, guard s op →
      Passing num origin (imagePost num maxBlk origin img) posts s ∧ Spares watched s op) :
    Simulates (ringMachine user) (trafficMachine user num maxBlk) (Follows num maxBlk watched)
      (Passing num origin (imagePost num maxBlk origin img) posts) guard where
  interfere _ _ _ follows here step := follows.epStep watches here step
  answer w s op reply w' follows ready answered := by
    cases op with
    | readl fn base off =>
        obtain ⟨value, same⟩ := answered
        subst value same
        exact ⟨s, s, ⟨rfl, follows.shows.readl off⟩, .refl, follows⟩
    | writel fn base off value =>
        have written : w' = _ := answered
        subst written
        rcases (spares s _ (ready s .refl)).2 with used | ⟨high, apart⟩
        · rw [used]
          exact ⟨_, _, (if_pos rfl).symm, .refl, follows.publish watches value⟩
        · have other : off ≠ rhUsedOff := by
            unfold rhDesc0Off at high
            unfold rhUsedOff
            omega
          exact ⟨_, _, (if_neg other).symm, .refl, follows.shows.write watches high apart value,
            follows.busy, follows.fetched⟩
    | memcpyToio fn base off bytes =>
        obtain ⟨s', moved, follows'⟩ := follows.copy watches answered fun s' moved =>
          ⟨(spares s' _ (ready s' moved)).1, (spares s' _ (ready s' moved)).2⟩
        exact ⟨s, s', rfl, moved, follows'⟩
    | copyFromUser src length =>
        obtain ⟨same, image⟩ := answered
        subst same
        exact ⟨s, s, ⟨rfl, image⟩, .refl, follows⟩
    | _ =>
        have same : w' = w := answered
        rw [same]
        exact ⟨s, s, rfl, .refl, follows⟩

/-- What is proved of the traffic, its guard sparing the watched words, holds of the ring. -/
theorem wp_ring {α : Type} (watches : WatchesWords watched) {guard : RingTraffic → Op → Prop}
    {post : α → RingTraffic → Prop} {guardRing : RingWorld → Op → Prop} {program : Host α}
    (spares : ∀ s op, guard s op →
      Passing num origin (imagePost num maxBlk origin img) posts s ∧ Spares watched s op)
    (returned : ∀ value s, post value s →
      Passing num origin (imagePost num maxBlk origin img) posts s)
    (grants : ∀ w s op, Follows num maxBlk watched w s → guard s op → guardRing w op)
    (holds : (trafficMachine user num maxBlk).wp guard post program s)
    (follows : Follows num maxBlk watched w s) :
    (ringMachine user).wp guardRing
      (fun value w' => ∃ s', Follows num maxBlk watched w' s' ∧ post value s') program w :=
  wp_simulated (follows_simulates watches spares) (fun s op here => (spares s op here).1) returned
    grants holds follows

end Follows

/-! The ring can do what the traffic does -/

section Realizes

variable {user : BitVec 64 → Byte} {num maxBlk : BitVec 32}
  {watched : RingTraffic → List (Nat × BitVec 32)}

/-- The ring shows the traffic while the endpoint waits. -/
def Waits (num maxBlk : BitVec 32) (watched : RingTraffic → List (Nat × BitVec 32))
    (w : RingWorld) (s : RingTraffic) : Prop :=
  RingShows num maxBlk watched w s ∧ w.phase = .waiting

theorem Waits.follows {w : RingWorld} {s : RingTraffic} (waits : Waits num maxBlk watched w s) :
    Follows num maxBlk watched w s where
  shows := waits.1
  busy busy := absurd waits.2 busy
  fetched _ _ _ fetched := nomatch waits.2.symm.trans fetched

/-- The traffic of an idle ring: there is none. -/
theorem IdleRing.waits {log : List EpAction} {w : RingWorld} (idle : IdleRing num maxBlk log w)
    (watches : WatchesWords watched) : Waits num maxBlk watched w ⟨w.counters, [], []⟩ := by
  have none := watches.start w.counters
  refine ⟨⟨rfl, idle.num, idle.maxBlk, fun place member => ?_, fun place member => ?_⟩, idle.phase⟩
  · rw [none] at member
    cases member
  · rw [none] at member
    cases member

theorem IdleRing.traffic {log : List EpAction} {w : RingWorld} (idle : IdleRing num maxBlk log w) :
    RingTraffic.Idle num ⟨w.counters, [], []⟩ where
  counters := by
    have sum := idle.idle
    rw [idle.num] at sum
    exact sum
  written := rfl
  queue := rfl

theorem IdleRing.ringed {log : List EpAction} {w : RingWorld} (idle : IdleRing num maxBlk log w)
    (post : Nat → PostedDesc) : Ringed num w.used post 0 ⟨w.counters, [], []⟩ :=
  ⟨rfl, 0, .empty idle.traffic⟩

/-- The endpoint consumes a descriptor in three steps. -/
theorem Waits.consume (watches : WatchesWords watched) {w : RingWorld} {s : RingTraffic}
    (waits : Waits num maxBlk watched w s) (more : s.counters.used ≠ s.counters.avail - num) :
    ∃ w', (ringMachine user).Drift w w' ∧ Waits num maxBlk watched w' s.consume := by
  obtain ⟨shows, waiting⟩ := waits
  have published : w.used ≠ w.avail - w.num := by
    rw [shows.num, show w.used = _ from congrArg RingCounters.used shows.counters,
      show w.avail = _ from congrArg RingCounters.avail shows.counters]
    exact more
  have fetch := EpStep.fetch w waiting published
  have execute := EpStep.execute _ _ (show { w with
    phase := .fetched (loadDesc w.bar (pcieRingDesc (w.avail - w.num) w.num)) }.phase = _ from rfl)
  exact ⟨_, ((Relation.ReflTransGen.single fetch).tail execute).tail (.advance _ rfl),
    shows.consume watches rfl, rfl⟩

theorem copyToio_outside (bar : Memory) (off : Nat) (bytes : List Byte) (cell : Nat)
    (outside : cell < off ∨ off + bytes.length ≤ cell) :
    copyToio bar off bytes cell = bar cell := by
  induction bytes generalizing bar off with
  | nil => rfl
  | cons byte rest ih =>
      rw [List.length_cons] at outside
      rw [copyToio, ih _ _ (by omega)]
      apply storeBytes_outside
      rw [List.length_singleton]
      omega

/-- Where every operation spares the watched words, the ring can take each step of the traffic. -/
theorem waits_realizes (watches : WatchesWords watched) {guard : RingTraffic → Op → Prop}
    (spares : ∀ s op, guard s op → Spares watched s op) :
    Realizes (ringMachine user) (trafficMachine user num maxBlk) (Waits num maxBlk watched)
      guard where
  interfere w s s' waits moved := by
    obtain ⟨more, same⟩ := moved
    rw [same]
    exact waits.consume watches more
  answer w s op reply s' waits ready answered := by
    obtain ⟨shows, waiting⟩ := waits
    cases op with
    | readl fn base off =>
        obtain ⟨same, used, avail, numReg, maxBlkReg⟩ := answered
        obtain ⟨used', avail', num', maxBlk'⟩ := shows.readl off
        refine ⟨w, ⟨?_, rfl⟩, same ▸ shows, waiting⟩
        rcases spares s _ ready with here | here | here | here
        · exact (used here).trans (used' here).symm
        · exact (avail here).trans (avail' here).symm
        · exact (numReg here).trans (num' here).symm
        · exact (maxBlkReg here).trans (maxBlk' here).symm
    | writel fn base off value =>
        have written : s' = _ := answered
        refine ⟨{ w with bar := store32 w.bar off value }, rfl, ?_, waiting⟩
        rw [written]
        rcases spares s _ ready with used | ⟨high, apart⟩
        · rw [if_pos used, used]
          exact shows.publish watches value
        · have other : off ≠ rhUsedOff := by
            unfold rhDesc0Off at high
            unfold rhUsedOff
            omega
          rw [if_neg other]
          exact shows.write watches high apart value
    | memcpyToio fn base off bytes =>
        have same : s' = s := answered
        obtain ⟨high, apart⟩ := spares s _ ready
        refine ⟨{ w with bar := copyToio w.bar off bytes }, copyToio_copies off bytes w, ?_,
          waiting⟩
        rw [same]
        refine shows.frame (fun cell low => copyToio_outside _ _ _ _ (by omega))
          fun place member => load32_congr fun index inside => copyToio_outside _ _ _ _ ?_
        have spared := apart place member
        unfold Apart at spared
        omega
    | copyFromUser src length =>
        obtain ⟨same, image⟩ := answered
        exact ⟨w, ⟨rfl, image⟩, same ▸ shows, waiting⟩
    | _ =>
        have same : s' = s := answered
        exact ⟨w, rfl, same ▸ shows, waiting⟩

/-- A ring that is idle at the given position. -/
def restingRing (num maxBlk used : BitVec 32) : RingWorld where
  bar := store32 (store32 (store32 (store32 (fun _ => 0) rhUsedOff used) rhAvailOff (used + num))
    rhNumOff num) rhMaxBlkOff maxBlk
  phase := .waiting
  log := []

theorem restingRing_idle (num maxBlk used : BitVec 32) :
    IdleRing num maxBlk [] (restingRing num maxBlk used) ∧
      (restingRing num maxBlk used).used = used := by
  have usedReg : (restingRing num maxBlk used).used = used := by
    unfold RingWorld.used restingRing
    rw [load32_store32_apart _ _ _ _ (by decide), load32_store32_apart _ _ _ _ (by decide),
      load32_store32_apart _ _ _ _ (by decide), load32_store32_same]
  have availReg : (restingRing num maxBlk used).avail = used + num := by
    unfold RingWorld.avail restingRing
    rw [load32_store32_apart _ _ _ _ (by decide), load32_store32_apart _ _ _ _ (by decide),
      load32_store32_same]
  have numReg : (restingRing num maxBlk used).num = num := by
    unfold RingWorld.num restingRing
    rw [load32_store32_apart _ _ _ _ (by decide), load32_store32_same]
  refine ⟨⟨numReg, load32_store32_same _ _ _, ?_, rfl, rfl⟩, usedReg⟩
  rw [usedReg, availReg, numReg]

end Realizes

end AmbaPci

import AmbaPci.EpActions
import AmbaPci.RingRules
import AmbaPci.XferRules

set_option autoImplicit false

/- What `pcie_ring_xfer_user` publishes for one image, on any machine that keeps a record of the
descriptors: DATA descriptors that tile the image and its padding, and the closing command. -/
namespace AmbaPci

open ByteMemory
open Interaction Interaction.Machine

/-- What the endpoint does with a descriptor; `data` is what a DATA descriptor has in its block. -/
def EpDesc.action (desc : EpDesc) (data : List Byte) : EpAction :=
  if desc.cmd = ringCmdData then .write desc.addr data
  else .command desc.cmd desc.size desc.addr

/-- What an image occupies in the memory of the endpoint, its padding included. -/
def paddedLength (length : BitVec 64) : Nat := (length.toNat + 15) / 16 * 16

/-- `length` bytes of user memory. -/
def userBytes (user : BitVec 64 → Byte) (src : BitVec 64) (length : Nat) : List Byte :=
  loadBytes (fun index => user (src + BitVec.ofNat 64 index)) 0 length

/-- The bytes of an image and the zeroes behind them, by position. -/
def imageCells (user : BitVec 64 → Byte) (src dataLen : BitVec 64) : Memory := fun index =>
  if index < dataLen.toNat then user (src + BitVec.ofNat 64 index) else 0

@[simp] theorem userBytes_length (user : BitVec 64 → Byte) (src : BitVec 64) (length : Nat) :
    (userBytes user src length).length = length := loadBytes_length _ _ _

/-- Behind the image there are zeroes. -/
theorem loadBytes_imageCells_beyond (user : BitVec 64 → Byte) (src : BitVec 64)
    {dataLen : BitVec 64} {position : Nat} (beyond : dataLen.toNat ≤ position) (count : Nat) :
    loadBytes (imageCells user src dataLen) position count = List.replicate count 0 := by
  apply List.ext_getElem
  · simp
  · intro index _ _
    have past : ¬ position + index < dataLen.toNat := by omega
    simp only [loadBytes, imageCells, List.getElem_map, List.getElem_range, past, ↓reduceIte,
      List.getElem_replicate]

theorem loadBytes_imageCells (user : BitVec 64 → Byte) (src dataLen : BitVec 64) (zeroes : Nat) :
    loadBytes (imageCells user src dataLen) 0 (dataLen.toNat + zeroes) =
      userBytes user src dataLen.toNat ++ List.replicate zeroes 0 := by
  have image : loadBytes (imageCells user src dataLen) 0 dataLen.toNat =
      userBytes user src dataLen.toNat := by
    apply loadBytes_congr
    intro index inside
    rw [Nat.zero_add, imageCells, if_pos inside]
  rw [loadBytes_append, image, loadBytes_imageCells_beyond user src (by omega)]

/-- A piece of the image, fetched from where it lies in user memory. -/
theorem loadBytes_imageCells_within (user : BitVec 64 → Byte) (src : BitVec 64)
    {dataLen epPos : BitVec 64} {count : Nat} (within : epPos.toNat + count ≤ dataLen.toNat) :
    loadBytes (imageCells user src dataLen) epPos.toNat count =
      userBytes user (src + epPos) count := by
  unfold userBytes loadBytes
  apply List.map_congr_left
  intro index inside
  rw [List.mem_range] at inside
  have image : epPos.toNat + index < dataLen.toNat := by omega
  simp only [imageCells, image, ↓reduceIte, BitVec.ofNat_add, BitVec.ofNat_toNat,
    BitVec.setWidth_eq, BitVec.add_assoc, Nat.zero_add]

/-- The bounce buffer holds the chunk at its position. -/
theorem ChunkBytes.image {user : BitVec 64 → Byte} {src dataLen epPos : BitVec 64}
    {csz : BitVec 32} {chunk : List Byte}
    (filled : ChunkBytes (fun source bytes => bytes = userBytes user source bytes.length)
      (src + epPos) dataLen epPos csz chunk) :
    chunk = loadBytes (imageCells user src dataLen) epPos.toNat csz.toNat := by
  rcases filled with ⟨beyond, rfl⟩ | ⟨within, bytes, fetched, size, rfl⟩
  · rw [BitVec.le_def] at beyond
    exact (loadBytes_imageCells_beyond user src beyond _).symm
  · have left : (dataLen - epPos).toNat = dataLen.toNat - epPos.toNat :=
      BitVec.toNat_sub_of_le (BitVec.le_of_lt within)
    rw [BitVec.lt_def] at within
    have inside : epPos.toNat + bytes.length ≤ dataLen.toNat := by omega
    have sum : csz.toNat = bytes.length + (csz.toNat - bytes.length) := by omega
    rw [sum, loadBytes_append, loadBytes_imageCells_within user src inside, ← fetched, ← sum]
    congr 1
    by_cases full : csz.toNat = bytes.length
    · rw [full, Nat.sub_self]
      rfl
    · exact (loadBytes_imageCells_beyond user src (by omega) _).symm

/-- The command that closes an image is not a DATA descriptor. -/
theorem pcieRingTail_ne_data (type : BitVec 32) (dataLen : BitVec 64) :
    (pcieRingTail type dataLen).1 ≠ ringCmdData := by
  unfold pcieRingTail
  split
  · decide
  · split
    · decide
    · split
      · show ringCmdSetInitrdAddr ≠ ringCmdData
        decide
      · decide

/-- The descriptors of one image: writes that tile the image and its padding from the load address
on, and the command. -/
def ImagePosted (user : BitVec 64 → Byte) (userBase : BitVec 64) (img : FwImageDesc)
    (posts : List EpAction) : Prop :=
  ∃ datas, posts = datas ++ [.command (pcieRingTail img.type img.length).1
      (pcieRingTail img.type img.length).2 (pcieFwLoadAddr img.type)] ∧
    Tiles (pcieFwLoadAddr img.type) datas
      (loadBytes (imageCells user (userBase + img.offset) img.length) 0
        (pcieRingXferTotal img.length).toNat)

variable {σ : Type}

/-- No condition on the operations of a run. -/
abbrev unguarded : σ → Op → Prop := fun _ _ => True

/-- A machine that keeps track of the descriptors published in one transfer: `queue` holds of them
while the transfer goes on, `closing` after the command, `closed` once the ring was seen idle. -/
structure PostTracking (M : Machine Op Op.Reply σ) (t : Timing) (base : Mapping)
    (ringMapSize : BitVec 64) (user : BitVec 64 → Byte) (limit : Nat) (start : σ → Prop)
    (queue : List EpAction → PcieRingCtx → σ → Prop) (closing closed : List EpAction → σ → Prop) :
    Prop where
  startStable : M.Stable start
  queueStable : ∀ posts ring, M.Stable (queue posts ring)
  alloc : ∀ s reply s', start s → M.answer s (.kmalloc ringBlockSize) reply s' → start s'
  init : ∀ s, start s → M.wp unguarded (fun init s' => init.1 = 0 → queue [] init.2 s')
    (pcieRingCtxInit base ringMapSize) s
  copy : ∀ posts ring s src length reply s', queue posts ring s →
    M.answer s (.copyFromUser src length) reply s' → queue posts ring s' ∧
      ∀ bytes, reply = some bytes → bytes.toList = userBytes user src length
  data : ∀ posts ring bytes csz epAddr s, posts.length < limit → bytes.length = csz.toNat →
    bytes.length ≤ ringBlockSize → queue posts ring s →
      M.wp unguarded (fun posted s' => posted.1 = 0 →
          queue (posts ++ [.write epAddr bytes]) posted.2 s')
        (pcieRingPostData t ring bytes csz epAddr) s
  cmd : ∀ posts ring cmd size addr s, posts.length ≤ limit → cmd ≠ ringCmdData →
    queue posts ring s → M.wp unguarded (fun posted s' => posted.1 = 0 →
        closing (posts ++ [.command cmd size addr]) s') (pcieRingPostCmd t ring cmd size addr) s
  poll : ∀ posts s, closing posts s →
    M.wp unguarded (fun ret s' => ret = 0 → closed posts s') (pcieRingXferPoll t base 5000) s

section Tracking

variable {M : Machine Op Op.Reply σ} {t : Timing} {base : Mapping} {ringMapSize : BitVec 64}
  {user : BitVec 64 → Byte} {limit : Nat} {start : σ → Prop}
  {queue : List EpAction → PcieRingCtx → σ → Prop} {closing closed : List EpAction → σ → Prop}

/-- After `chunk` chunks: as many posts, which tile that much of the image. -/
def ChunksPosted (queue : List EpAction → PcieRingCtx → σ → Prop) (loadAddr total : BitVec 64)
    (image : Memory) (chunk : Nat) (ring : PcieRingCtx) (s : σ) : Prop :=
  ∃ posts, posts.length = chunk ∧
    Tiles loadAddr posts (loadBytes image 0 (ringPos total chunk).toNat) ∧ queue posts ring s

theorem ringPos_succ_toNat {total : BitVec 64} {chunk : Nat} (inside : chunk < ringChunks total) :
    (ringPos total (chunk + 1)).toNat =
      (ringPos total chunk).toNat + (pcieRingChunkSize total (ringPos total chunk)).toNat := by
  rw [ringPos_toNat, ringPos_toNat, pcieRingChunkSize_toNat inside, ringChunkLen]
  unfold ringChunks at inside
  omega

/-- One pass posts the next tile. -/
theorem ringChunkPass_posts
    (tracking : PostTracking M t base ringMapSize user limit start queue closing closed)
    (src dataLen loadAddr total : BitVec 64) {chunk : Nat} (inside : chunk < ringChunks total)
    (few : ringChunks total ≤ limit) {ring : PcieRingCtx} {s : σ}
    (holds : ChunksPosted queue loadAddr total (imageCells user src dataLen) chunk ring s) :
    M.wp unguarded (fun posted s' => posted.1 = 0 →
        ChunksPosted queue loadAddr total (imageCells user src dataLen) (chunk + 1) posted.2 s')
      (ringChunkPass t src dataLen loadAddr total (ringPos total chunk) ring) s := by
  obtain ⟨posts, count, tiles, queued⟩ := holds
  have size := pcieRingChunkSize_toNat inside
  have short := ringChunkLen_le total chunk
  apply wp_seq (pcieRingFillChunk_wp (tracking.queueStable posts ring)
    (fun source bytes => bytes = userBytes user source bytes.length) _ dataLen _ _
    (fun _ _ _ => trivial) (fun s' length reply s'' here copied => ?_) queued)
  · intro filled s' bounce
    obtain ⟨queued', image⟩ := bounce
    cases filled with
    | none => exact wp_done (tracking.queueStable posts ring) queued' fun _ _ zero =>
        absurd zero (show (-efault : Int) ≠ 0 by decide)
    | some bytes =>
        have length := (image bytes rfl).length
        have block : bytes.length ≤ ringBlockSize := by
          rw [length, size]
          exact short
        apply wp_mono (tracking.data posts ring bytes _ _ s' (by omega) length block queued')
        intro posted s'' next zero
        refine ⟨_, ?_, ?_, next zero⟩
        · rw [List.length_append, List.length_singleton, count]
        · have step := tiles.snoc bytes
          rw [loadBytes_length, BitVec.ofNat_toNat, BitVec.setWidth_eq,
            (image bytes rfl).image] at step
          rw [ringPos_succ_toNat inside, loadBytes_append, Nat.zero_add, (image bytes rfl).image]
          exact step
  · obtain ⟨queued', same⟩ := tracking.copy posts ring s' _ length reply s'' here copied
    refine ⟨queued', fun bytes found => ?_⟩
    rw [Vector.length_toList]
    exact same bytes found

theorem image_stages
    (tracking : PostTracking M t base ringMapSize user limit start queue closing closed)
    (userBase : BitVec 64) (img : FwImageDesc)
    (few : ringChunks (pcieRingXferTotal img.length) ≤ limit) :
    XferStages M unguarded t base ringMapSize userBase img start
      (ChunksPosted queue (pcieFwLoadAddr img.type) (pcieRingXferTotal img.length)
        (imageCells user (userBase + img.offset) img.length))
      (fun ret s => ret = 0 → ∃ posts, ImagePosted user userBase img posts ∧ closed posts s) where
  startStable := tracking.startStable
  stable chunk ring s s' here moved := by
    obtain ⟨posts, count, tiles, queued⟩ := here
    exact ⟨posts, count, tiles, tracking.queueStable posts ring s s' queued moved⟩
  allocReady _ _ := trivial
  alloc := tracking.alloc
  refused s here := wp_done tracking.startStable here fun _ _ zero =>
    absurd zero (show (-enomem : Int) ≠ 0 by decide)
  init s here := by
    apply wp_mono (tracking.init s here)
    intro init s' ready
    split
    · rename_i failed
      exact fun _ _ zero => absurd zero failed
    · rename_i zero
      refine ⟨[], rfl, ?_, ready (Decidable.not_not.mp zero)⟩
      rw [ringPos_zero]
      exact .nil _
  pass chunk ring s inside here := by
    apply wp_mono (ringChunkPass_posts tracking _ _ _ _ inside few here)
    intro posted s' next
    split
    · rename_i failed
      exact fun _ _ zero => absurd zero failed
    · rename_i zero
      exact next (Decidable.not_not.mp zero)
  close ring s here := by
    obtain ⟨posts, count, tiles, queued⟩ := here
    apply wp_mono (tracking.cmd posts ring _ _ _ s (by omega)
      (pcieRingTail_ne_data img.type img.length) queued)
    intro posted s' last
    split
    · rename_i failed
      exact fun _ _ zero => absurd zero failed
    · rename_i zero
      apply wp_mono (tracking.poll _ s' (last (Decidable.not_not.mp zero)))
      intro ret s'' drained zero'
      refine ⟨_, ⟨posts, rfl, ?_⟩, drained zero'⟩
      have whole : (ringPos (pcieRingXferTotal img.length)
          (ringChunks (pcieRingXferTotal img.length))).toNat =
          (pcieRingXferTotal img.length).toNat := by
        rw [ringPos_toNat, ringChunks]
        omega
      rw [whole] at tiles
      exact tiles

/-- A transfer that returns 0 has published its image, and nothing else. -/
theorem pcieRingXferUser_posts
    (tracking : PostTracking M t base ringMapSize user limit start queue closing closed)
    (userBase : BitVec 64) (img : FwImageDesc)
    (few : ringChunks (pcieRingXferTotal img.length) ≤ limit) {s : σ} (holds : start s) :
    M.wp unguarded
      (fun ret s' => ret = 0 → ∃ posts, ImagePosted user userBase img posts ∧ closed posts s')
      (pcieRingXferUser t base ringMapSize userBase img) s :=
  XferStages.wp (image_stages tracking userBase img few) holds

end Tracking

/-- The descriptors of several images, one image after the other. -/
def ImagesPosted (user : BitVec 64 → Byte) (req : FwXfer) :
    List (BitVec 32) → List EpAction → Prop
  | [], posts => posts = []
  | type :: rest, posts =>
      ∃ img first later, pcieFwFindImage req type = some img ∧
        ImagePosted user req.fwUserPtr img first ∧ ImagesPosted user req rest later ∧
        posts = first ++ later

section Request

variable {M : Machine Op Op.Reply σ} {t : Timing} {user : BitVec 64 → Byte} {limit : Nat}
  {req : FwXfer} {idle : List EpAction → σ → Prop}
  {queue : List EpAction → List EpAction → PcieRingCtx → σ → Prop}
  {closing : List EpAction → List EpAction → σ → Prop}

/-- Each image starts where the one before has left the ring. -/
theorem xferImages_posts {base : Mapping} {ringMapSize : BitVec 64}
    (tracking : ∀ log, PostTracking M t base ringMapSize user limit (idle log) (queue log)
      (closing log) fun posts => idle (log ++ posts))
    (few : ∀ img ∈ req.images.toList, ringChunks (pcieRingXferTotal img.length) ≤ limit)
    (types : List (BitVec 32)) {log : List EpAction} {s : σ} (holds : idle log s) :
    M.wp unguarded (fun ret s' => ret = 0 →
        ∃ posts, ImagesPosted user req types posts ∧ idle (log ++ posts) s')
      (xferImages t base ringMapSize req types) s := by
  induction types generalizing log s with
  | nil =>
      refine wp_done (tracking log).startStable holds fun s' here _ => ?_
      refine ⟨[], rfl, ?_⟩
      rw [List.append_nil]
      exact here
  | cons type rest ih =>
      unfold xferImages
      cases found : pcieFwFindImage req type with
      | none => exact oops_wp (tracking log).startStable (fun _ _ => trivial) holds
      | some img =>
          have member : img ∈ req.images.toList := List.mem_of_find?_eq_some found
          apply wp_seq (pcieRingXferUser_posts (tracking log) req.fwUserPtr img (few img member)
            holds)
          intro ret s' posted
          split
          · rename_i failed
            exact fun _ _ zero => absurd zero failed
          · rename_i zero
            obtain ⟨first, image, idle'⟩ := posted (Decidable.not_not.mp zero)
            apply wp_mono (ih idle')
            intro ret' s'' posted' zero'
            obtain ⟨later, images, idle''⟩ := posted' zero'
            refine ⟨first ++ later, ⟨img, first, later, found, image, images, rfl⟩, ?_⟩
            rw [← List.append_assoc]
            exact idle''

/-- A transfer that returns 0 has published its three images in order, and nothing else. -/
theorem pcieXferFirmwareLocked_posts
    (tracking : ∀ base ringMapSize log, PostTracking M t base ringMapSize user limit (idle log)
      (queue log) (closing log) fun posts => idle (log ++ posts))
    (quiet : ∀ log s op reply s', Op.Quiet op → idle log s → M.answer s op reply s' → idle log s')
    (few : ∀ img ∈ req.images.toList, ringChunks (pcieRingXferTotal img.length) ≤ limit)
    (e : Entry) {log : List EpAction} {s : σ} (holds : idle log s) :
    M.wp unguarded (fun result s' => result.1 = 0 →
        ∃ posts, ImagesPosted user req pcieFwXferOrder posts ∧ idle (log ++ posts) s')
      (pcieXferFirmwareLocked t req e) s := by
  refine pcieXferFirmwareLocked_wp (fun ret s' => ret = 0 →
      ∃ posts, ImagesPosted user req pcieFwXferOrder posts ∧ idle (log ++ posts) s')
    (tracking 0 0 log).startStable (fun _ _ _ _ => trivial)
    (fun s op reply s' prepares => quiet log s op reply s' prepares.quiet)
    (fun ret s failed _ zero => absurd zero failed) (fun base ringMapSize s here => ?_) holds
  exact xferImages_posts (tracking base ringMapSize) few pcieFwXferOrder here

end Request

end AmbaPci

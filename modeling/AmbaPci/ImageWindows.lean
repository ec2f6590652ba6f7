import AmbaPci.ImageDelivery
import AmbaPci.PostRecords

set_option autoImplicit false

/- Where the three images of a firmware transfer lie in the memory of the endpoint, and what that
memory holds when the endpoint has consumed the ring. -/
namespace AmbaPci

open ByteMemory
open Interaction Interaction.Machine

/-! The load windows -/

def loadStart (img : FwImageDesc) : Nat := (pcieFwLoadAddr img.type).toNat

def LoadedApart (img other : FwImageDesc) : Prop :=
  Apart (loadStart img) (paddedLength img.length) (loadStart other) (paddedLength other.length)

/-- The image is written above the reserved memory, and not past the last address. -/
def LoadedInside (img : FwImageDesc) : Prop :=
  ambaPciFwEpRsvdEnd.toNat ≤ loadStart img ∧ loadStart img + paddedLength img.length ≤ 2 ^ 64

structure ImagesApart (dtb rootfs kernel : FwImageDesc) : Prop where
  dtbRootfs : LoadedApart dtb rootfs
  dtbKernel : LoadedApart dtb kernel
  rootfsKernel : LoadedApart rootfs kernel
  dtbInside : LoadedInside dtb
  rootfsInside : LoadedInside rootfs
  kernelInside : LoadedInside kernel

/-- Every image fits into its window of the load map: 2 MiB for the DTB, 64 MiB for the kernel, and
the rest of the address space for the root file system. -/
structure ImagesFit (dtb rootfs kernel : FwImageDesc) : Prop where
  dtb : dtb.length.toNat ≤ 2 * 2 ^ 20
  rootfs : rootfs.length.toNat ≤ 2 ^ 64 - 0x6200000
  kernel : kernel.length.toNat ≤ 64 * 2 ^ 20

/-- The image lies in memory byte for byte. -/
def HoldsImage (memory : Memory) (user : BitVec 64 → Byte) (userBase : BitVec 64)
    (img : FwImageDesc) : Prop :=
  ∀ index < img.length.toNat,
    memory (loadStart img + index) = user (userBase + img.offset + BitVec.ofNat 64 index)

theorem loadStart_dtb {img : FwImageDesc} (type : img.type = ambaPciFwImageDtb) :
    loadStart img = 0x6000000 := by
  rw [loadStart, type]
  decide

theorem loadStart_rootfs {img : FwImageDesc} (type : img.type = ambaPciFwImageRootfs) :
    loadStart img = 0x6200000 := by
  rw [loadStart, type]
  decide

theorem loadStart_kernel {img : FwImageDesc} (type : img.type = ambaPciFwImageKernel) :
    loadStart img = 0x2000000 := by
  rw [loadStart, type]
  decide

theorem imagesApart_iff_fit {dtb rootfs kernel : FwImageDesc}
    (dtbType : dtb.type = ambaPciFwImageDtb) (rootfsType : rootfs.type = ambaPciFwImageRootfs)
    (kernelType : kernel.type = ambaPciFwImageKernel) :
    ImagesApart dtb rootfs kernel ↔ ImagesFit dtb rootfs kernel := by
  have reserved : ambaPciFwEpRsvdEnd.toNat = 0x2000000 := by decide
  have dtbStart := loadStart_dtb dtbType
  have rootfsStart := loadStart_rootfs rootfsType
  have kernelStart := loadStart_kernel kernelType
  constructor
  · intro intact
    obtain ⟨dtbRootfs, dtbKernel, -, -, inside, -⟩ := intact
    unfold LoadedApart Apart paddedLength at dtbRootfs dtbKernel
    unfold LoadedInside paddedLength at inside
    constructor <;> omega
  · intro fit
    obtain ⟨dtbFits, rootfsFits, kernelFits⟩ := fit
    constructor
    · unfold LoadedApart Apart paddedLength
      omega
    · unfold LoadedApart Apart paddedLength
      omega
    · unfold LoadedApart Apart paddedLength
      omega
    · unfold LoadedInside paddedLength
      omega
    · unfold LoadedInside paddedLength
      omega
    · unfold LoadedInside paddedLength
      omega

theorem pcieFwFindImage_type {req : FwXfer} {type : BitVec 32} {img : FwImageDesc}
    (found : pcieFwFindImage req type = some img) : img.type = type := by
  have tested := List.find?_some found
  exact of_decide_eq_true tested

/-! What lies in memory after the transfer -/

section Memory

variable {user : BitVec 64 → Byte} {userBase : BitVec 64} {img : FwImageDesc}

/-- The bytes one image leaves in memory. -/
def loadedBytes (user : BitVec 64 → Byte) (userBase : BitVec 64) (img : FwImageDesc) : List Byte :=
  loadBytes (imageCells user (userBase + img.offset) img.length) 0 (paddedLength img.length)

/-- Executing the descriptors of one image is one store. -/
theorem ImagePosted.run {posts : List EpAction} (posted : ImagePosted user userBase img posts)
    (inside : LoadedInside img) (memory : Memory) :
    runActions memory posts =
      storeBytes memory (loadStart img) (loadedBytes user userBase img) := by
  obtain ⟨datas, rfl, tiles⟩ := posted
  obtain ⟨above, below⟩ := inside
  have reserved : ambaPciFwEpRsvdEnd.toNat = 0x2000000 := by decide
  have total : (pcieRingXferTotal img.length).toNat = paddedLength img.length := by
    unfold paddedLength at below ⊢
    rw [pcieRingXferTotal_toNat, if_pos (by omega)]
  rw [total] at tiles
  rw [runActions_append, runActions_command]
  apply tiles.run
  rw [loadBytes_length]
  exact below

theorem loadedBytes_length (img : FwImageDesc) :
    (loadedBytes user userBase img).length = paddedLength img.length := loadBytes_length _ _ _

theorem holdsImage_store (memory : Memory) :
    HoldsImage (storeBytes memory (loadStart img) (loadedBytes user userBase img)) user userBase
      img := by
  intro index inside
  have padded : index < paddedLength img.length := by
    unfold paddedLength
    omega
  rw [storeBytes_inside _ _ _ (by rwa [loadedBytes_length])]
  simp only [loadedBytes, loadBytes, List.getElem_map, List.getElem_range, Nat.zero_add, imageCells,
    inside, ↓reduceIte]

/-- An image stays where it is while another is written elsewhere. -/
theorem HoldsImage.store {memory : Memory} (holds : HoldsImage memory user userBase img)
    {other : FwImageDesc} (apart : LoadedApart img other) :
    HoldsImage (storeBytes memory (loadStart other) (loadedBytes user userBase other)) user userBase
      img := by
  intro index inside
  rw [← holds index inside]
  apply storeBytes_outside
  rw [loadedBytes_length]
  unfold LoadedApart Apart paddedLength at apart
  unfold paddedLength
  omega

end Memory

/-- What a successful transfer has posted fills the three windows, when every image fits. -/
theorem imagesPosted_hold {user : BitVec 64 → Byte} {req : FwXfer} {posts : List EpAction}
    (posted : ImagesPosted user req pcieFwXferOrder posts) {dtb rootfs kernel : FwImageDesc}
    (foundDtb : pcieFwFindImage req ambaPciFwImageDtb = some dtb)
    (foundRootfs : pcieFwFindImage req ambaPciFwImageRootfs = some rootfs)
    (foundKernel : pcieFwFindImage req ambaPciFwImageKernel = some kernel)
    (apart : ImagesApart dtb rootfs kernel) (memory : Memory) :
    ∀ img ∈ [dtb, rootfs, kernel], HoldsImage (runActions memory posts) user req.fwUserPtr img := by
  obtain ⟨_, dtbPosts, _, dtbFound, dtbPosted, later, rfl⟩ := posted
  obtain ⟨_, rootfsPosts, _, rootfsFound, rootfsPosted, last, rfl⟩ := later
  obtain ⟨_, kernelPosts, _, kernelFound, kernelPosted, none, rfl⟩ := last
  cases dtbFound.symm.trans foundDtb
  cases rootfsFound.symm.trans foundRootfs
  cases kernelFound.symm.trans foundKernel
  intro img member
  rw [show _ = [] from none, List.append_nil, runActions_append, runActions_append,
    dtbPosted.run apart.dtbInside, rootfsPosted.run apart.rootfsInside,
    kernelPosted.run apart.kernelInside]
  rw [List.mem_cons, List.mem_cons, List.mem_singleton] at member
  rcases member with rfl | rfl | rfl
  · exact ((holdsImage_store memory).store apart.dtbRootfs).store apart.dtbKernel
  · exact (holdsImage_store _).store apart.rootfsKernel
  · exact holdsImage_store _

/-! The transfer -/

/-- A transfer that returns 0 has found every image it looked for. -/
theorem xferImages_found {allow : (op : Op) → op.Reply → Prop} {t : Timing} {base : Mapping}
    {ringMapSize : BitVec 64} {req : FwXfer} {types : List (BitVec 32)}
    (returned : Prog.Returns allow (xferImages t base ringMapSize req types) 0) :
    ∀ type ∈ types, ∃ img, pcieFwFindImage req type = some img := by
  induction types with
  | nil =>
      intro type member
      cases member
  | cons type rest ih =>
      unfold xferImages at returned
      cases found : pcieFwFindImage req type with
      | none =>
          rw [found] at returned
          obtain ⟨impossible, -, -⟩ := (Prog.returns_call_iff _ _ _).mp returned
          cases impossible
      | some img =>
          rw [found] at returned
          obtain ⟨ret, -, later⟩ := (Prog.returns_bind_iff _ _ _).mp returned
          have others : ∀ type ∈ rest, ∃ img, pcieFwFindImage req type = some img := by
            split at later
            · rename_i failed
              cases (Prog.returns_done_iff _ _).mp later
              exact absurd rfl failed
            · exact ih later
          intro other member
          rcases List.mem_cons.mp member with same | member
          · exact ⟨img, same ▸ found⟩
          · exact others other member

theorem pcieIoctlXferFirmware_found {allow : (op : Op) → op.Reply → Prop} {t : Timing}
    {req : FwXfer} {e e' : Entry}
    (returned : Prog.Returns allow (pcieIoctlXferFirmware t req e) (0, e')) :
    ∀ type ∈ pcieFwXferOrder, ∃ img, pcieFwFindImage req type = some img := by
  have refused : ∀ {ret : Int} {e₁ : Entry}, ret ≠ 0 →
      ¬ Prog.Returns allow (.done (ret, e₁)) ((0 : Int), e') := by
    intro ret e₁ failed returned
    exact failed (congrArg Prod.fst ((Prog.returns_done_iff _ _).mp returned)).symm
  unfold pcieIoctlXferFirmware at returned
  split at returned
  · unfold pcieXferFirmwareLocked at returned
    split at returned
    · exact absurd returned (refused (by decide))
    · split at returned
      · exact absurd returned (refused (by decide))
      · obtain ⟨⟨ret, e₁⟩, -, returned⟩ := (Prog.returns_bind_iff _ _ _).mp returned
        dsimp only at returned
        split at returned
        · rename_i failed
          exact absurd returned (refused failed)
        · split at returned
          · obtain ⟨_, -, returned⟩ := (Prog.returns_perform_iff _ _ _).mp returned
            obtain ⟨sent, sending, returned⟩ := (Prog.returns_bind_iff _ _ _).mp returned
            split at returned
            · rename_i failed
              exact absurd returned (refused failed)
            · rename_i zero
              rw [Decidable.not_not.mp zero] at sending
              obtain ⟨ready, -, sending⟩ := (Prog.returns_bind_iff _ _ _).mp sending
              split at sending
              · rename_i failed
                exact absurd ((Prog.returns_done_iff _ _).mp sending).symm failed
              · exact xferImages_found sending
          · obtain ⟨impossible, -, -⟩ := (Prog.returns_call_iff _ _ _).mp returned
            cases impossible
  · exact absurd returned (refused (by decide))

/-- On a ring that is idle at first, a transfer that returns 0 has had its three images executed. -/
theorem pcieIoctlXferFirmware_posts {user : BitVec 64 → Byte} {num maxBlk : BitVec 32}
    {ringMapSize : BitVec 64} (header : RingHeader num maxBlk ringMapSize) (t : Timing)
    {req : FwXfer} (short : ∀ img ∈ req.images.toList, img.length.toNat ≤ 2 ^ 40) (e : Entry)
    {log : List EpAction} {s : RingWorld} (holds : IdleRing num maxBlk log s) :
    (ringMachine user).wp unguarded (fun result s' => result.1 = 0 →
        ∃ posts, ImagesPosted user req pcieFwXferOrder posts ∧
          IdleRing num maxBlk (log ++ posts) s')
      (pcieIoctlXferFirmware t req e) s := by
  unfold pcieIoctlXferFirmware
  split
  · refine pcieXferFirmwareLocked_posts
      (fun base size log => ring_tracking header t base size log)
      (fun log s op reply s' quiet here answered => ?_) (fun img member => ?_) e holds
    · rwa [ringMachine_quiet answered quiet]
    · have bound := short img member
      unfold ringChunks
      rw [pcieRingXferTotal_toNat, if_pos (by omega)]
      omega
  · exact wp_done idleRing_stable holds fun _ _ zero =>
      absurd zero (show (-einval : Int) ≠ 0 by decide)

/-- What a successful transfer leaves in the memory of an endpoint whose header describes a ring it
can use: every image, when each fits its window. -/
def ImagesHeld (t : Timing) (req : FwXfer) (e e' : Entry) (images : List FwImageDesc) : Prop :=
  ∀ (user : BitVec 64 → Byte) (num maxBlk : BitVec 32) (ringMapSize : BitVec 64)
    (log : List EpAction) (s s' : RingWorld), RingHeader num maxBlk ringMapSize →
    IdleRing num maxBlk log s →
    (ringMachine user).Steps (pcieIoctlXferFirmware t req e, s) (.done (0, e'), s') →
    ∀ memory, ∀ img ∈ images, HoldsImage (runActions memory s'.log) user req.fwUserPtr img

/-- A transfer that returns 0 has found the three images. Their padded ranges are disjoint, above
the reserved memory and short of the end of memory exactly when each image fits its window. On a
ring that is idle at first, with an endpoint that consumes it in order, the memory then holds all
three. -/
theorem image_windows (t : Timing) (req : FwXfer) (e e' : Entry)
    (returned : Prog.Returns anyReply (pcieIoctlXferFirmware t req e) (0, e')) :
    ∃ dtb rootfs kernel, pcieFwFindImage req ambaPciFwImageDtb = some dtb ∧
      pcieFwFindImage req ambaPciFwImageRootfs = some rootfs ∧
      pcieFwFindImage req ambaPciFwImageKernel = some kernel ∧
      (ImagesApart dtb rootfs kernel ↔ ImagesFit dtb rootfs kernel) ∧
      (ImagesFit dtb rootfs kernel → (∀ img ∈ req.images.toList, img.length.toNat ≤ 2 ^ 40) →
        ImagesHeld t req e e' [dtb, rootfs, kernel]) := by
  have found := pcieIoctlXferFirmware_found returned
  obtain ⟨dtb, foundDtb⟩ := found ambaPciFwImageDtb (by decide)
  obtain ⟨rootfs, foundRootfs⟩ := found ambaPciFwImageRootfs (by decide)
  obtain ⟨kernel, foundKernel⟩ := found ambaPciFwImageKernel (by decide)
  have windows := imagesApart_iff_fit (pcieFwFindImage_type foundDtb)
    (pcieFwFindImage_type foundRootfs) (pcieFwFindImage_type foundKernel)
  refine ⟨dtb, rootfs, kernel, foundDtb, foundRootfs, foundKernel, windows, ?_⟩
  intro fit short user num maxBlk ringMapSize log s s' header idle run memory
  obtain ⟨posts, posted, idle'⟩ := wp_post
    (pcieIoctlXferFirmware_posts header t short e idle) run rfl
  rw [idle'.log, runActions_append]
  exact imagesPosted_hold posted foundDtb foundRootfs foundKernel (windows.mpr fit) _

/-! A kernel that is too long for its window -/

/-- A request for a DTB and a root file system of 16 bytes and a kernel of the given length. -/
def kernelRequest (kernelLength : BitVec 64) : FwXfer where
  slotId := 0
  fwSize := 0x80000000
  fwUserPtr := 0x1000
  images := #v[⟨ambaPciFwImageDtb, 0, 16⟩, ⟨ambaPciFwImageRootfs, 16, 16⟩,
    ⟨ambaPciFwImageKernel, 32, kernelLength⟩]

theorem kernelRequest_found (kernelLength : BitVec 64) :
    ∀ type ∈ pcieFwXferOrder,
      (pcieFwFindImage (kernelRequest kernelLength) type).isSome = true := by
  intro type member
  rw [pcieFwXferOrder, List.mem_cons, List.mem_cons, List.mem_singleton] at member
  rcases member with rfl | rfl | rfl
  · rfl
  · rfl
  · rfl

theorem kernelRequest_canReturn (user : BitVec 64 → Byte) (kernelLength : BitVec 64)
    (valid : fwXferAccepted (kernelRequest kernelLength) = true) :
    (postRecorder user).CanReturn (fun result _ => result.1 = 0)
      (pcieIoctlXferFirmware onePoll (kernelRequest kernelLength) readyEntry) {} := by
  have ready : ReadyForXfer readyEntry _ 0 := ⟨rfl, rfl, rfl, rfl, rfl⟩
  exact pcieIoctlXferFirmware_canReturn (postRecorder_obliging _ 4 16 4) ready
    ⟨by decide, by decide, by decide⟩ valid (kernelRequest_found kernelLength) {}

/-- User memory in which every byte is the low byte of its address. -/
def countingUser : BitVec 64 → Byte := fun addr => addr.setWidth 8

/-- A ring of one slot and one block whose endpoint has booted, idle. -/
def readyRing : RingWorld where
  bar cell :=
    if cell = 8 ∨ cell = 16 ∨ cell = 20 ∨ cell = 4 then 1
    else if cell < 4 then wordByte ringMagic cell else 0
  phase := .waiting
  log := []

/-- The endpoint consumes each of the six descriptors as soon as it is published. -/
def threeImagesSchedule : List (Option Unit) :=
  let post (calls : Nat) : List (Option Unit) :=
    List.replicate calls none ++ List.replicate 3 (some ())
  post 23 ++ post 10 ++ post 21 ++ post 10 ++ post 21 ++ post 10 ++ List.replicate 5 none

def sentImages : Option (Host (Int × Entry) × RingWorld) :=
  (ringDriver countingUser).run threeImagesSchedule
    (pcieIoctlXferFirmware ⟨1000, 1⟩ (kernelRequest 16) readyEntry, readyRing)

theorem sentImages_done : ∃ e' s', sentImages = some (.done (0, e'), s') := by
  have returned : (sentImages.bind fun c => c.1.result.map Prod.fst) = some 0 := by decide +kernel
  obtain ⟨⟨program, s'⟩, found, result⟩ := Option.bind_eq_some_iff.mp returned
  cases program with
  | done value =>
      obtain ⟨ret, e'⟩ := value
      cases result
      exact ⟨e', s', found⟩
  | call op next => cases result

theorem image_windows_small : ∃ s' : RingWorld, ∀ memory,
    HoldsImage (runActions memory s'.log) countingUser (kernelRequest 16).fwUserPtr
      ⟨ambaPciFwImageKernel, 32, 16⟩ := by
  obtain ⟨e', s', ran⟩ := sentImages_done
  have run := (ringDriver_sound countingUser).steps threeImagesSchedule _ _ ran
  obtain ⟨dtb, rootfs, kernel, foundDtb, foundRootfs, foundKernel, -, hold⟩ :=
    image_windows ⟨1000, 1⟩ (kernelRequest 16) readyEntry e' run.returns
  have sameDtb : ⟨ambaPciFwImageDtb, 0, 16⟩ = dtb := Option.some.inj foundDtb
  have sameRootfs : ⟨ambaPciFwImageRootfs, 16, 16⟩ = rootfs := Option.some.inj foundRootfs
  have sameKernel : ⟨ambaPciFwImageKernel, 32, 16⟩ = kernel := Option.some.inj foundKernel
  subst sameDtb sameRootfs sameKernel
  have header : RingHeader 1 1 0x100000 :=
    ⟨by decide, by decide, by decide, by decide, by decide⟩
  have start : IdleRing 1 1 [] readyRing := ⟨by decide, by decide, by decide, rfl, rfl⟩
  have held := hold ⟨by decide, by decide, by decide⟩ (by decide) countingUser 1 1 0x100000 []
    readyRing s' header start run
  exact ⟨s', fun memory => held memory _ (by simp)⟩

/-- A kernel of 64 MiB and one byte passes every check, its transfer can succeed, and its last bytes
are written over the DTB. -/
theorem image_windows_longKernel :
    ∃ t req e e' dtb rootfs kernel, fwXferAccepted req = true ∧
      Prog.Returns anyReply (pcieIoctlXferFirmware t req e) (0, e') ∧
      pcieFwFindImage req ambaPciFwImageDtb = some dtb ∧
      pcieFwFindImage req ambaPciFwImageRootfs = some rootfs ∧
      pcieFwFindImage req ambaPciFwImageKernel = some kernel ∧
      ¬ ImagesApart dtb rootfs kernel := by
  have valid : fwXferAccepted (kernelRequest 0x4000001) = true := by decide
  obtain ⟨⟨ret, e'⟩, s, run, zero⟩ := kernelRequest_canReturn countingUser 0x4000001 valid
  dsimp only at zero
  subst zero
  refine ⟨onePoll, kernelRequest 0x4000001, readyEntry, e', _, _, _, valid, run.returns, rfl, rfl,
    rfl, fun apart => ?_⟩
  have overlap := apart.dtbKernel
  unfold LoadedApart Apart at overlap
  revert overlap
  decide

end AmbaPci

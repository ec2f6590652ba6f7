import AmbaPci.ImageWindows
import Mathlib.Data.List.Perm.Subperm

set_option autoImplicit false

/- What the checks of `pcie_ioctl_xfer_firmware` say about the request. The completeness check is
made on a bitmap of shift counts, the lookup compares the whole type. -/
namespace AmbaPci

/-- The descriptor's range is not empty and lies in the file, as integers. -/
def ImageInRange (fwSize : BitVec 64) (img : FwImageDesc) : Prop :=
  0 < img.length.toNat ∧ img.offset.toNat + img.length.toNat ≤ fwSize.toNat

theorem fwImageAccepted_iff (fwSize : BitVec 64) (img : FwImageDesc) :
    fwImageAccepted fwSize img = true ↔ ImageInRange fwSize img := by
  have offset := img.offset.isLt
  have size := fwSize.isLt
  have empty : img.length = 0 ↔ img.length.toNat = 0 :=
    ⟨fun same => congrArg BitVec.toNat same, fun same => BitVec.eq_of_toNat_eq same⟩
  simp only [fwImageAccepted, Bool.not_eq_true', Bool.or_eq_false_iff, decide_eq_false_iff_not,
    beq_eq_false_iff_ne, ne_eq, empty, BitVec.lt_def, BitVec.toNat_sub, ImageInRange]
  omega

theorem fwTypeBit_getLsbD (type : BitVec 32) {bit : Nat} (inside : bit < 32) :
    (fwTypeBit type).getLsbD bit = decide (type.toNat % 32 = bit) := by
  rw [fwTypeBit, BitVec.getLsbD_shiftLeft]
  simp only [inside, decide_true, Bool.true_and]
  by_cases same : type.toNat % 32 = bit
  · simp [same]
  · by_cases below : bit < type.toNat % 32
    · simp [same, below]
    · have apart : ¬ bit - type.toNat % 32 = 0 := by omega
      simp [same, apart]

/-- The loop accepts when every descriptor is in range, with the shifted types as its bitmap. -/
theorem fwReqBitmap_eq_some_iff (fwSize : BitVec 64) (images : List FwImageDesc)
    (bitmap result : BitVec 32) :
    fwReqBitmap fwSize images bitmap = some result ↔
      (∀ img ∈ images, ImageInRange fwSize img) ∧
        result = images.foldl (fun bits img => bits ||| fwTypeBit img.type) bitmap := by
  induction images generalizing bitmap with
  | nil => simp [fwReqBitmap, eq_comm]
  | cons img rest ih =>
      unfold fwReqBitmap
      split
      · rename_i accepted
        rw [fwImageAccepted_iff] at accepted
        simp [ih, accepted]
      · rename_i rejected
        rw [fwImageAccepted_iff] at rejected
        simp [rejected]

theorem foldl_typeBits_getLsbD (images : List FwImageDesc) (bitmap : BitVec 32) {bit : Nat}
    (inside : bit < 32) :
    (images.foldl (fun bits img => bits ||| fwTypeBit img.type) bitmap).getLsbD bit = true ↔
      bitmap.getLsbD bit = true ∨ ∃ img ∈ images, img.type.toNat % 32 = bit := by
  induction images generalizing bitmap with
  | nil => simp
  | cons img rest ih =>
      rw [List.foldl_cons, ih, BitVec.getLsbD_or, fwTypeBit_getLsbD img.type inside]
      simp [or_assoc]

theorem pcieFwReqBitmapMask_getLsbD {type : BitVec 32} (known : type ∈ pcieFwXferOrder) :
    type.toNat < 32 ∧ pcieFwReqBitmapMask.getLsbD type.toNat = true := by
  simp only [pcieFwXferOrder, List.mem_cons, List.not_mem_nil, or_false] at known
  rcases known with rfl | rfl | rfl
  · decide
  · decide
  · decide

/-- What an accepted request has been checked for, with the shift count taken modulo 32. -/
theorem fwXferAccepted_checks {req : FwXfer} (accepted : fwXferAccepted req = true) :
    (∀ img ∈ req.images.toList, ImageInRange req.fwSize img) ∧
      ∀ type ∈ pcieFwXferOrder, ∃ img ∈ req.images.toList,
        img.type.toNat % 32 = type.toNat := by
  simp only [fwXferAccepted, Bool.and_eq_true, beq_iff_eq] at accepted
  obtain ⟨ranges, bits⟩ := (fwReqBitmap_eq_some_iff _ _ _ _).mp accepted.2
  refine ⟨ranges, fun type known => ?_⟩
  obtain ⟨small, set⟩ := pcieFwReqBitmapMask_getLsbD known
  rw [bits, foldl_typeBits_getLsbD _ _ small] at set
  exact set.resolve_left (by simp)

theorem pcieFwFindImage_isSome_iff (req : FwXfer) (type : BitVec 32) :
    (pcieFwFindImage req type).isSome = true ↔ type ∈ req.images.toList.map (·.type) := by
  simp [pcieFwFindImage]

/-- Three types that cover the three images are these images in some order. -/
theorem types_perm_of_covered {req : FwXfer}
    (covered : pcieFwXferOrder ⊆ req.images.toList.map (·.type)) :
    (req.images.toList.map (·.type)).Perm pcieFwXferOrder := by
  have distinct : pcieFwXferOrder.Nodup := by decide
  have size : (req.images.toList.map (·.type)).length ≤ pcieFwXferOrder.length := by
    rw [List.length_map, Vector.length_toList]
    exact Nat.le_refl 3
  exact ((List.subperm_of_subset distinct covered).perm_of_length_le size).symm

/-- The request has what the transfer looks up: no shift has left the word, the types are the three
images, and each lookup finds a descriptor whose range is in the file. -/
structure RequestComplete (req : FwXfer) : Prop where
  shifts : ∀ img ∈ req.images.toList, img.type.toNat < 32
  types : (req.images.toList.map (·.type)).Perm pcieFwXferOrder
  found : ∀ type ∈ pcieFwXferOrder, ∃ img, pcieFwFindImage req type = some img ∧
    img.type = type ∧ ImageInRange req.fwSize img

/-- Types that are shift counts of a 32-bit word are told apart by the bitmap. -/
theorem covered_of_small {req : FwXfer} (accepted : fwXferAccepted req = true)
    (small : ∀ img ∈ req.images.toList, img.type.toNat < 32) :
    pcieFwXferOrder ⊆ req.images.toList.map (·.type) := by
  intro type known
  obtain ⟨img, member, same⟩ := (fwXferAccepted_checks accepted).2 type known
  have exact' : img.type = type := by
    apply BitVec.eq_of_toNat_eq
    rw [← same, Nat.mod_eq_of_lt (small img member)]
  rw [← exact']
  exact List.mem_map_of_mem member

theorem requestComplete_of_covered {req : FwXfer} (accepted : fwXferAccepted req = true)
    (covered : pcieFwXferOrder ⊆ req.images.toList.map (·.type)) : RequestComplete req := by
  have types := types_perm_of_covered covered
  refine ⟨fun img member => ?_, types, fun type known => ?_⟩
  · have known := types.subset (List.mem_map_of_mem member)
    exact (pcieFwReqBitmapMask_getLsbD known).1
  · have present := (pcieFwFindImage_isSome_iff req type).mpr (covered known)
    obtain ⟨img, found⟩ := Option.isSome_iff_exists.mp present
    have member : img ∈ req.images.toList := List.mem_of_find?_eq_some found
    exact ⟨img, found, pcieFwFindImage_type found, (fwXferAccepted_checks accepted).1 img member⟩

/-- An accepted request is complete exactly when its types are below 32; otherwise one of the three
lookups finds nothing, and `pcie_ring_xfer_user` gets a NULL image. -/
theorem request_complete_iff (req : FwXfer) (accepted : fwXferAccepted req = true) :
    (RequestComplete req ↔ ∀ img ∈ req.images.toList, img.type.toNat < 32) ∧
      ((∃ type ∈ pcieFwXferOrder, pcieFwFindImage req type = none) ↔
        ¬ ∀ img ∈ req.images.toList, img.type.toNat < 32) := by
  have complete : (∀ img ∈ req.images.toList, img.type.toNat < 32) → RequestComplete req :=
    fun small => requestComplete_of_covered accepted (covered_of_small accepted small)
  refine ⟨⟨RequestComplete.shifts, complete⟩, ?_, fun wide => ?_⟩
  · rintro ⟨type, known, missing⟩ small
    obtain ⟨img, found, -⟩ := (complete small).found type known
    rw [missing] at found
    cases found
  · by_contra all
    apply wide
    refine (requestComplete_of_covered accepted fun type known => ?_).shifts
    rw [← pcieFwFindImage_isSome_iff, Option.isSome_iff_ne_none]
    exact fun missing => all ⟨type, known, missing⟩

theorem request_complete_iff_small : RequestComplete (kernelRequest 16) :=
  (request_complete_iff (kernelRequest 16) (by decide)).1.mpr (by decide)

/-- The type 32 of the first image passes for the DTB in the bitmap, and is never found. -/
def wideRequest : FwXfer :=
  { kernelRequest 16 with images := #v[⟨32, 0, 16⟩, ⟨ambaPciFwImageRootfs, 16, 16⟩,
      ⟨ambaPciFwImageKernel, 32, 16⟩] }

theorem request_complete_wide :
    fwXferAccepted wideRequest = true ∧ ¬ RequestComplete wideRequest ∧
      pcieFwFindImage wideRequest ambaPciFwImageDtb = none := by
  refine ⟨by decide, fun complete => ?_, by decide⟩
  have small := complete.shifts ⟨32, 0, 16⟩ (by decide)
  revert small
  decide

end AmbaPci

import AmbaPci.H2d
import AmbaPci.InteractionMachine

set_option autoImplicit false

/- Where in the EP address space the two H2D ioctls write. -/
namespace AmbaPci

open ByteMemory (Byte)
open Interaction Interaction.Machine

/-- A file of `length` bytes, and how many of them `kernel_read` returns at each position: at least
one before the end, at most a chunk, and none at the end. -/
structure FileReads where
  length : Nat
  size : Nat → Nat
  progress : ∀ pos < length, 0 < size pos
  chunk : ∀ pos, size pos ≤ ambaPciH2dChunkMax.toNat
  inside : ∀ pos ≤ length, pos + size pos ≤ length

/-- `kernel_read` returns what the file gives, or fails; every other service replies anything. -/
def fileReplies (file : FileReads) : (op : H2dOp) → op.Reply → Prop
  | .kernelRead _ _, .failed err => err < 0
  | .kernelRead pos _, .read bytes => bytes.length = file.size pos
  | _, _ => True

/-- Seen as integers, the range of an `h2d_xfer` starts at `epAddr` or above, and ends in the
address space. -/
def StaysAbove (epAddr : BitVec 64) : H2dOp → Prop
  | .h2dXfer _ bytes addr => epAddr.toNat ≤ addr.toNat ∧ addr.toNat + bytes.length ≤ 2 ^ 64
  | _ => True

/-- Every `h2d_xfer` that a run of the call issues stays above `epAddr`. -/
def NeverWraps (replies : (op : H2dOp) → op.Reply → Prop) (epAddr : BitVec 64)
    (call : H2d Int) : Prop :=
  ∀ op next, (ofReplies replies).Steps (call, ()) (.call op next, ()) → StaysAbove epAddr op

variable {file : FileReads} {epAddr : BitVec 64}

theorem neverWraps_of_wp {replies : (op : H2dOp) → op.Reply → Prop} {call : H2d Int}
    (holds : (ofReplies replies).wp (fun _ => StaysAbove epAddr) (fun _ _ => True) call ()) :
    NeverWraps replies epAddr call :=
  fun _ _ run => wp_guard holds run

theorem not_neverWraps {replies : (op : H2dOp) → op.Reply → Prop} {call : H2d Int}
    (can : (ofReplies replies).CanCall (fun _ op => ¬ StaysAbove epAddr op) call ()) :
    ¬ NeverWraps replies epAddr call := by
  intro never
  obtain ⟨op, next, _, run, outside⟩ := can
  exact outside (never op next run)

/-- Short of the end of the address space, an address is its start and its offset. -/
theorem addr_add_toNat (start : BitVec 64) (offset : Nat) (room : start.toNat + offset < 2 ^ 64) :
    (start + BitVec.ofNat 64 offset).toNat = start.toNat + offset := by
  rw [BitVec.toNat_add, BitVec.toNat_ofNat, Nat.add_mod_mod, Nat.mod_eq_of_lt room]

/-! The file path -/

/-- From every position on, a file that ends inside the address space is written inside it. -/
theorem pcieH2dFileLoop_stays (fits : epAddr.toNat + file.length ≤ 2 ^ 64) (bus : BitVec 32)
    (reads pos : Nat) (within : pos ≤ file.length) :
    (ofReplies (fileReplies file)).wp (fun _ => StaysAbove epAddr) (fun _ _ => True)
      (pcieH2dFileLoop bus reads pos (epAddr + BitVec.ofNat 64 pos)) () := by
  induction reads generalizing pos with
  | zero => exact fun _ _ => ⟨trivial, fun impossible => nomatch impossible⟩
  | succ reads ih =>
      apply ofReplies_perform trivial
      intro nread allowed
      split
      · exact ofReplies_done trivial
      · exact ofReplies_done trivial
      · rename_i bytes some
        have length : bytes.length = file.size pos := allowed
        have positive : 0 < bytes.length := List.length_pos_iff.mpr some
        have inside := file.inside pos within
        have here := addr_add_toNat epAddr pos (by omega)
        apply ofReplies_perform
        · show epAddr.toNat ≤ _ ∧ _ + bytes.length ≤ 2 ^ 64
          omega
        · intro ret _
          split
          · exact ofReplies_done trivial
          · have next := ih (pos + bytes.length) (by omega)
            rw [BitVec.ofNat_add, ← BitVec.add_assoc] at next
            exact next

/-- A file that does not fit is written until a chunk leaves the address space, when no transfer
fails. -/
theorem pcieH2dFileLoop_leaves (beyond : 2 ^ 64 < epAddr.toNat + file.length) (safe : epAddr ≠ 0)
    (bus : BitVec 32) (reads pos : Nat) (within : pos < file.length)
    (below : epAddr.toNat + pos ≤ 2 ^ 64) (enough : file.length ≤ pos + reads) :
    (ofReplies (fileReplies file)).CanCall (fun _ op => ¬ StaysAbove epAddr op)
      (pcieH2dFileLoop bus reads pos (epAddr + BitVec.ofNat 64 pos)) () := by
  induction reads generalizing pos with
  | zero => omega
  | succ reads ih =>
      have positive := file.progress pos within
      obtain ⟨size, sized⟩ : ∃ size, file.size pos = size + 1 := ⟨file.size pos - 1, by omega⟩
      have bytesLength : (List.replicate (size + 1) (0 : Byte)).length = size + 1 :=
        List.length_replicate
      apply ofReplies_canCall (.read (List.replicate (size + 1) 0))
      · exact bytesLength.trans sized.symm
      · show (ofReplies (fileReplies file)).CanCall _ (h2d (.h2dXfer bus
          (List.replicate (size + 1) 0) (epAddr + BitVec.ofNat 64 pos)) >>= _) ()
        have bound := BitVec.toNat_pos_of_ne_zero safe
        by_cases last : epAddr.toNat + pos = 2 ^ 64
        · -- the last chunk has ended at the top, and the address has wrapped to 0
          apply canCall_here
          have wrapped : (epAddr + BitVec.ofNat 64 pos).toNat = 0 := by
            rw [BitVec.toNat_add, BitVec.toNat_ofNat, Nat.add_mod_mod, last, Nat.mod_self]
          intro stays
          have low : epAddr.toNat ≤ (epAddr + BitVec.ofNat 64 pos).toNat := stays.1
          omega
        · have here := addr_add_toNat epAddr pos (by omega)
          by_cases crosses : 2 ^ 64 < epAddr.toNat + pos + (size + 1)
          · apply canCall_here
            intro stays
            have ends : (epAddr + BitVec.ofNat 64 pos).toNat +
                (List.replicate (size + 1) (0 : Byte)).length ≤ 2 ^ 64 := stays.2
            omega
          · apply ofReplies_canCall (0 : Int) trivial
            have next := ih (pos + (size + 1)) (by omega) (by omega) (by omega)
            rw [BitVec.ofNat_add, ← BitVec.add_assoc] at next
            rw [if_neg (by simp), bytesLength]
            exact next

/-- Nothing but the loop writes to the EP. -/
theorem pcieH2dSendOpened_stays (fits : epAddr.toNat + file.length ≤ 2 ^ 64) (bus : BitVec 32)
    (reads : Nat) :
    (ofReplies (fileReplies file)).wp (fun _ => StaysAbove epAddr) (fun _ _ => True)
      (pcieH2dSendOpened bus reads epAddr) () := by
  apply ofReplies_perform trivial
  intro kbuf _
  split
  · exact ofReplies_done trivial
  · have loop := pcieH2dFileLoop_stays fits bus reads 0 (Nat.zero_le file.length)
    rw [show epAddr + BitVec.ofNat 64 0 = epAddr from BitVec.add_zero epAddr] at loop
    apply wp_seq loop
    intro ret _ _
    exact ofReplies_perform trivial fun _ _ => ofReplies_done trivial

theorem pcieIoctlH2dSendFile_stays (req : H2dSendFile) (reads : Nat)
    (fits : req.epAddr.toNat + file.length ≤ 2 ^ 64) :
    NeverWraps (fileReplies file) req.epAddr (pcieIoctlH2dSendFile reads (some req)) := by
  apply neverWraps_of_wp
  simp only [pcieIoctlH2dSendFile]
  split
  · exact ofReplies_done trivial
  · split
    · exact ofReplies_done trivial
    · apply ofReplies_perform trivial
      intro e _
      split
      · exact ofReplies_done trivial
      · rename_i bus passed
        apply ofReplies_perform trivial
        intro found _
        split
        · exact ofReplies_done trivial
        · apply ofReplies_perform trivial
          intro opened _
          split
          · exact ofReplies_perform trivial fun _ _ => ofReplies_done trivial
          · apply wp_seq (pcieH2dSendOpened_stays fits bus reads)
            intro ret _ _
            apply ofReplies_perform trivial
            intro _ _
            exact ofReplies_perform trivial fun _ _ => ofReplies_done trivial

/-- The checks of the request itself, before the lock is taken. -/
def h2dFileAccepted (req : H2dSendFile) : Bool :=
  (h2dSlot req.slotId).isSome && h2dPath req != [] && req.epAddr != 0

/-- A card that is ready to be sent to. -/
def connectedEntry : Entry where
  inUse := true
  state := .connected
  pdev := some (cardAt 1 1 ambaPciVirtioDeviceId)

theorem h2dFileAccepted_checks {req : H2dSendFile} (accepted : h2dFileAccepted req = true) :
    ∃ index, h2dSlot req.slotId = some index ∧ ¬ (h2dPath req = [] ∨ req.epAddr = 0) := by
  simp only [h2dFileAccepted, Bool.and_eq_true, bne_iff_ne, ne_eq] at accepted
  obtain ⟨⟨slot, named⟩, safe⟩ := accepted
  obtain ⟨index, addressed⟩ := Option.isSome_iff_exists.mp slot
  exact ⟨index, addressed, fun bad => bad.elim named safe⟩

theorem pcieIoctlH2dSendFile_leaves (req : H2dSendFile) (accepted : h2dFileAccepted req = true)
    (beyond : 2 ^ 64 < req.epAddr.toNat + file.length) :
    ¬ NeverWraps (fileReplies file) req.epAddr
      (pcieIoctlH2dSendFile file.length (some req)) := by
  obtain ⟨index, addressed, passed⟩ := h2dFileAccepted_checks accepted
  have safe : req.epAddr ≠ 0 := fun zero => passed (.inr zero)
  have start := req.epAddr.isLt
  have loop := pcieH2dFileLoop_leaves beyond safe 1 file.length 0 (by omega) (by omega) (by omega)
  rw [show req.epAddr + BitVec.ofNat 64 0 = req.epAddr from BitVec.add_zero _] at loop
  apply not_neverWraps
  simp only [pcieIoctlH2dSendFile, addressed, if_neg passed]
  apply ofReplies_canCall connectedEntry trivial
  show (ofReplies (fileReplies file)).CanCall _
    (pcieH2dSendPath 1 file.length (h2dPath req) req.epAddr) ()
  apply ofReplies_canCall true trivial
  apply ofReplies_canCall (0 : Int) trivial
  apply canCall_bind
  apply ofReplies_canCall true trivial
  exact canCall_bind loop

/-! The buffer path -/

theorem h2dChunkSize_toNat {size offset : BitVec 64} (inside : offset.toNat ≤ size.toNat) :
    (h2dChunkSize size offset).toNat =
      min (size.toNat - offset.toNat) ambaPciH2dChunkMax.toNat := by
  have left : (size - offset).toNat = size.toNat - offset.toNat :=
    BitVec.toNat_sub_of_le (BitVec.le_def.mpr inside)
  unfold h2dChunkSize
  split
  · rename_i small
    rw [BitVec.lt_def, left] at small
    omega
  · rename_i large
    rw [BitVec.lt_def, left] at large
    omega

theorem pcieH2dBufferLoop_stays (bus : BitVec 32) (src size epAddr : BitVec 64)
    (fits : epAddr.toNat + size.toNat < 2 ^ 64) (passes : Nat) (offset : BitVec 64)
    (within : offset.toNat ≤ size.toNat) :
    (pcieH2dBufferLoop bus src size epAddr passes offset).Calls (StaysAbove epAddr) := by
  induction passes generalizing offset with
  | zero => exact ⟨trivial, fun impossible => nomatch impossible⟩
  | succ passes ih =>
      have chunk := h2dChunkSize_toNat within
      have here : (epAddr + offset).toNat = epAddr.toNat + offset.toNat :=
        BitVec.toNat_add_of_lt (by omega)
      have next : (offset + h2dChunkSize size offset).toNat =
          offset.toNat + (h2dChunkSize size offset).toNat := BitVec.toNat_add_of_lt (by omega)
      unfold pcieH2dBufferLoop
      split
      · apply Prog.Calls.perform trivial
        intro copied
        split
        · trivial
        · rename_i bytes
          apply Prog.Calls.perform
          · show epAddr.toNat ≤ _ ∧ _ + bytes.toList.length ≤ 2 ^ 64
            rw [Vector.length_toList]
            omega
          · intro ret
            split
            · trivial
            · exact ih _ (by omega)
      · trivial

/-- A buffer that passes the checks ends inside the address space. -/
theorem h2dBuffer_fits {req : H2dSendBuffer} (passed : ¬ (req.srcUserPtr = 0 ∨ req.size = 0 ∨
      req.epAddr = 0 ∨ BitVec.allOnes 64 - req.size < req.srcUserPtr ∨
      BitVec.allOnes 64 - req.size < req.epAddr)) :
    req.epAddr.toNat + req.size.toNat < 2 ^ 64 := by
  have size := req.size.isLt
  have top : ¬ BitVec.allOnes 64 - req.size < req.epAddr := by
    simp only [not_or] at passed
    exact passed.2.2.2.2
  have most : (BitVec.allOnes 64).toNat = 2 ^ 64 - 1 := BitVec.toNat_allOnes
  have room : (BitVec.allOnes 64 - req.size).toNat = 2 ^ 64 - 1 - req.size.toNat := by
    rw [BitVec.toNat_sub_of_le (BitVec.le_def.mpr (by omega)), most]
  rw [BitVec.lt_def] at top
  omega

theorem pcieIoctlH2dSendBuffer_stays (req : H2dSendBuffer) :
    (pcieIoctlH2dSendBuffer (some req)).Calls (StaysAbove req.epAddr) := by
  simp only [pcieIoctlH2dSendBuffer]
  split
  · trivial
  · split
    · trivial
    · rename_i passed
      have fits := h2dBuffer_fits passed
      apply Prog.Calls.perform trivial
      intro e
      split
      · trivial
      · apply Prog.Calls.perform trivial
        intro found
        split
        · trivial
        · apply Prog.Calls.perform trivial
          intro kbuf
          split
          · exact Prog.Calls.perform trivial fun _ => trivial
          · apply Prog.Calls.bind (pcieH2dBufferLoop_stays _ _ _ _ fits _ 0 (Nat.zero_le _))
            intro ret
            apply Prog.Calls.perform trivial
            intro _
            exact Prog.Calls.perform trivial fun _ => trivial

/-- Both H2D paths stay above the address they were asked to write to, the buffer path for every
request. -/
def H2dPathsStay (file : FileReads) (req : H2dSendFile) : Prop :=
  (∀ reads, NeverWraps (fileReplies file) req.epAddr (pcieIoctlH2dSendFile reads (some req))) ∧
    ∀ req' : H2dSendBuffer, NeverWraps (fun _ _ => True) req'.epAddr
      (pcieIoctlH2dSendBuffer (some req'))

/-- For every accepted file request, every file and every split of it into reads: no transfer wraps
exactly when the file ends inside the address space. -/
theorem h2d_paths_stay_iff (file : FileReads) (req : H2dSendFile)
    (accepted : h2dFileAccepted req = true) :
    H2dPathsStay file req ↔ req.epAddr.toNat + file.length ≤ 2 ^ 64 := by
  constructor
  · intro stay
    apply Nat.le_of_not_lt
    intro beyond
    exact pcieIoctlH2dSendFile_leaves req accepted beyond (stay.1 file.length)
  · intro fits
    refine ⟨fun reads => pcieIoctlH2dSendFile_stays req reads fits, fun req' => ?_⟩
    apply neverWraps_of_wp
    have stays := pcieIoctlH2dSendBuffer_stays req'
    exact wp_calls (ofReplies_stable _ fun _ => True) (fun _ _ allowed _ => allowed)
      (fun _ _ _ _ _ _ _ => trivial) stays trivial

/-- A file of two bytes, read in one piece. -/
def shortFile : FileReads where
  length := 2
  size pos := 2 - pos
  progress pos before := by omega
  chunk pos := by
    have limit : ambaPciH2dChunkMax.toNat = 2097152 := by decide
    omega
  inside pos within := by omega

/-- A request for the file "/" on slot 0. -/
def fileRequest (epAddr : BitVec 64) : H2dSendFile :=
  ⟨0, epAddr, Vector.ofFn fun i => if i.val = 0 then 0x2f else 0⟩

theorem h2d_paths_stay_low : H2dPathsStay shortFile (fileRequest 0x8000000) :=
  (h2d_paths_stay_iff shortFile (fileRequest 0x8000000) (by decide +kernel)).mpr (by decide)

/-- The second byte of the file goes past the top. -/
theorem h2d_file_wraps : h2dFileAccepted (fileRequest (BitVec.allOnes 64)) = true ∧
    ¬ H2dPathsStay shortFile (fileRequest (BitVec.allOnes 64)) :=
  have accepted : h2dFileAccepted (fileRequest (BitVec.allOnes 64)) = true := by decide +kernel
  ⟨accepted, fun stay => pcieIoctlH2dSendFile_leaves _ accepted (by decide) (stay.1 _)⟩

end AmbaPci

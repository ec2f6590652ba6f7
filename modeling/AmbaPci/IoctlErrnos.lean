import AmbaPci.FileIoctl
import AmbaPci.HotplugIsolation

set_option autoImplicit false

/- The sign of what `pcie_file_ioctl` returns. -/
namespace AmbaPci

open ByteMemory (Byte)
open Interaction Interaction.Prog Interaction.Machine

/-- A negative errno. -/
def IsErrno (ret : Int) : Prop := -4095 ≤ ret ∧ ret < 0

instance (ret : Int) : Decidable (IsErrno ret) := inferInstanceAs (Decidable (_ ∧ _))

/-- 0, or a negative errno. -/
def Conforms (ret : Int) : Prop := ret = 0 ∨ IsErrno ret

instance (ret : Int) : Decidable (Conforms ret) := inferInstanceAs (Decidable (_ ∨ _))

/-- What `pci_write_config_byte` can return: 0, or a positive PCIBIOS code. -/
def ConfigReply : (op : Op) → op.Reply → Prop
  | .pciWriteConfigByte _ _ _, err => 0 ≤ err
  | _, _ => True

/-- The H2D services return a count or a negative errno, or 0 or a negative errno. -/
def H2dConforms : (op : H2dOp) → op.Reply → Prop
  | .kernelRead _ _, .failed err => IsErrno err
  | .filpOpen _, ret => Conforms ret
  | .h2dXfer _ _ _, ret => Conforms ret
  | _, _ => True

/-- Whether a config write has failed, one operation later. -/
def watched (failed : Bool) : (op : Op) → op.Reply → Bool
  | .pciWriteConfigByte _ _ _, err => failed || err != 0
  | _, _ => failed

/-- The kernel services of a section, watched for a config write that fails. -/
def configWatch : Machine Op Op.Reply Bool where
  answer failed op reply failed' := ConfigReply op reply ∧ failed' = watched failed op reply
  interfere _ _ := False

theorem configWatch_stable (assertion : Bool → Prop) : configWatch.Stable assertion :=
  fun _ _ _ impossible => nomatch impossible

/-- A positive code after a config write has failed, 0 or a negative errno otherwise. -/
def Signed (ret : Int) (failed : Bool) : Prop :=
  if failed then 0 < ret else Conforms ret

theorem signed_zero : Signed 0 false := Or.inl rfl

theorem signed_errno {ret : Int} (errno : IsErrno ret) : Signed ret false := Or.inr errno

/-- The callers go on from 0 and from `-ENXIO`, and neither is returned after a failed config
write. -/
theorem Signed.unfailed {ret : Int} {failed : Bool} (signed : Signed ret failed)
    (goesOn : ret ≤ 0) : failed = false := by
  cases failed with
  | false => rfl
  | true =>
      have positive : 0 < ret := signed
      omega

theorem Signed.unfailed_enxio {ret : Int} {failed : Bool} (signed : Signed ret failed)
    (again : ret = -enxio) : failed = false := by
  apply signed.unfailed
  rw [again]
  decide

section Watch

variable {α β : Type} {guard : Bool → Op → Prop}

theorem watch_done {post : α → Bool → Prop} {value : α} {failed : Bool}
    (holds : post value failed) :
    configWatch.wp (fun _ _ => True) post (.done value) failed :=
  wp_done (configWatch_stable (· = failed)) rfl fun _ same => same ▸ holds

theorem watch_perform {post : β → Bool → Prop} {op : Op} {next : op.Reply → Host β}
    {failed : Bool} (rest : ∀ reply, ConfigReply op reply →
      configWatch.wp (fun _ _ => True) post (next reply) (watched failed op reply)) :
    configWatch.wp (fun _ _ => True) post (perform op >>= next) failed := by
  apply wp_perform (configWatch_stable (· = failed)) rfl fun _ _ => trivial
  rintro _ reply _ rfl ⟨replied, rfl⟩
  exact rest reply replied

/-- A config write: it fails with its positive code, or the watch goes on. -/
theorem watch_configWrite {post : β → Bool → Prop} {pdev : PciDev} {register : Nat}
    {value : BitVec 8} {next : Int → Host β}
    (fails : ∀ err : Int, 0 < err → configWatch.wp (fun _ _ => True) post (next err) true)
    (goesOn : configWatch.wp (fun _ _ => True) post (next 0) false) :
    configWatch.wp (fun _ _ => True) post
      (perform (.pciWriteConfigByte pdev register value) >>= next) false := by
  apply watch_perform
  intro reply replied
  have written : ∀ err : Int, 0 ≤ err →
      configWatch.wp (fun _ _ => True) post (next err)
        (watched false (.pciWriteConfigByte pdev register value) err) := by
    intro err positive
    by_cases zero : err = 0
    · rw [zero]
      exact goesOn
    · have failed : watched false (.pciWriteConfigByte pdev register value) err = true := by
        simp [watched, zero]
      rw [failed]
      exact fails err (by omega)
  exact written reply replied

/-- The step after a call whose code is checked: one that is not 0 is handed on. -/
theorem watch_unless (code : α → Int) (code' : β → Int) {first : Host α} {stop : α → β}
    {rest : α → Host β} {failed : Bool}
    (before : configWatch.wp (fun _ _ => True) (fun value => Signed (code value)) first failed)
    (handedOn : ∀ value, code' (stop value) = code value)
    (goesOn : ∀ value, code value = 0 →
      configWatch.wp (fun _ _ => True) (fun value => Signed (code' value)) (rest value) false) :
    configWatch.wp (fun _ _ => True) (fun value => Signed (code' value))
      (first >>= fun value => if code value ≠ 0 then pure (stop value) else rest value) failed := by
  apply wp_seq before
  intro value failed signed
  by_cases zero : code value = 0
  · have unfailed := signed.unfailed (by omega)
    rw [unfailed, if_neg (Decidable.not_not.mpr zero)]
    exact goesOn value zero
  · rw [if_pos zero]
    apply watch_done
    rw [handedOn]
    exact signed

end Watch

/-! The mapping of the boot BAR -/

theorem pcieEnableMemIoResource_signed (pdev : PciDev) :
    configWatch.wp (fun _ _ => True) Signed (pcieEnableMemIoResource pdev) false := by
  have stops : ∀ (err : Int) (rest : Host Int), 0 < err →
      configWatch.wp (fun _ _ => True) Signed (if err ≠ 0 then pure err else rest) true := by
    intro err rest positive
    have failed : err ≠ 0 := by omega
    rw [if_pos failed]
    exact watch_done positive
  apply watch_configWrite (fun err positive => stops err _ positive)
  rw [if_neg (by simp)]
  apply watch_perform; intro _ _
  apply watch_configWrite (fun err positive => stops err _ positive)
  rw [if_neg (by simp)]
  apply watch_perform; intro _ _
  apply watch_configWrite (fun err positive => stops err _ positive)
  rw [if_neg (by simp)]
  apply watch_perform; intro _ _
  exact watch_done signed_zero

theorem pcieMapFoundBar_signed (pdev : PciDev) (e : Entry) :
    configWatch.wp (fun _ _ => True) (fun result => Signed result.1) (pcieMapFoundBar pdev e)
      false := by
  apply watch_perform
  intro res _
  split
  · exact watch_done (signed_errno (show IsErrno (-enxio) by decide))
  · apply watch_unless id Prod.fst (pcieEnableMemIoResource_signed pdev) fun _ => rfl
    intro _ _
    apply watch_perform
    intro base _
    cases base with
    | none => exact watch_done (signed_errno (show IsErrno (-eio) by decide))
    | some base => exact watch_done signed_zero

theorem pcieMapBootBar_signed (pdev : PciDev) (e : Entry) :
    configWatch.wp (fun _ _ => True) (fun result => Signed result.1) (pcieMapBootBar pdev e)
      false := by
  unfold pcieMapBootBar
  split
  · split
    · exact watch_done (signed_errno (show IsErrno (-enxio) by decide))
    · exact pcieMapFoundBar_signed pdev _
  · exact pcieMapFoundBar_signed pdev e

/-- Only `-ENXIO` is tried again, so no attempt follows a failed config write. -/
theorem pcieBootBarMapRetry_signed (pdev : PciDev) (attempts : Nat) {last : Int}
    (conforms : Conforms last) (e : Entry) :
    configWatch.wp (fun _ _ => True) (fun result => Signed result.1)
      (pcieBootBarMapRetry pdev attempts last e) false := by
  induction attempts generalizing last e with
  | zero => exact watch_done conforms
  | succ attempts ih =>
      apply wp_seq (pcieMapBootBar_signed pdev e)
      intro result failed signed
      obtain ⟨ret, e'⟩ := result
      dsimp only at signed ⊢
      split
      · exact watch_done signed
      · split
        · exact watch_done signed
        · rename_i again
          have unfailed := signed.unfailed_enxio (Decidable.not_not.mp again)
          rw [unfailed] at signed ⊢
          apply watch_perform; intro _ _
          exact ih signed e'

/-- The wait for an assigned BAR ends in `-ETIMEDOUT`. -/
theorem pcieBootBarEnsureMapped_signed (pdev : PciDev) (e : Entry) :
    configWatch.wp (fun _ _ => True) (fun result => Signed result.1)
      (pcieBootBarEnsureMapped pdev e) false := by
  unfold pcieBootBarEnsureMapped
  split
  · exact watch_done signed_zero
  · apply wp_seq (pcieBootBarMapRetry_signed pdev _ (Or.inl rfl) e)
    intro result failed signed
    obtain ⟨ret, e'⟩ := result
    dsimp only at signed ⊢
    split
    · rename_i enxio
      rw [signed.unfailed_enxio enxio]
      exact watch_done (signed_errno (show IsErrno (-etimedout) by decide))
    · exact watch_done signed

theorem refreshBootMapping_signed (pdev : PciDev) (e : Entry) :
    configWatch.wp (fun _ _ => True) (fun result => Signed result.1) (refreshBootMapping pdev e)
      false := by
  unfold refreshBootMapping
  split
  · exact pcieBootBarEnsureMapped_signed pdev e
  · exact watch_done signed_zero

/-! The firmware ring -/

/-- Reading the ring fails no config write. -/
theorem pcieRingReadWords_watch (base : Mapping) (index count : Nat) :
    configWatch.wp (fun _ _ => True) (fun _ failed => failed = false)
      (pcieRingReadWords base index count) false := by
  induction count generalizing index with
  | zero => exact watch_done rfl
  | succ count ih =>
      apply watch_perform; intro _ _
      apply wp_seq (ih (index + 1))
      intro rest failed unfailed
      exact watch_done unfailed

theorem pcieDevRefreshBoardInfoLocked_signed (e : Entry) :
    configWatch.wp (fun _ _ => True) (fun result => Signed result.1)
      (pcieDevRefreshBoardInfoLocked e) false := by
  unfold pcieDevRefreshBoardInfoLocked
  split
  · exact watch_done signed_zero
  · split
    · exact watch_done (signed_errno (show IsErrno (-enodev) by decide))
    · rename_i pdev _
      apply watch_unless Prod.fst Prod.fst (refreshBootMapping_signed pdev e) fun _ => rfl
      intro result zero
      have fine : Signed result.1 false := zero ▸ signed_zero
      split
      · rename_i base _ _
        have read : configWatch.wp (fun _ _ => True) (fun _ failed => failed = false)
            (pcieRingReadBoardInfo base) false := by
          apply wp_seq (pcieRingReadWords_watch base 0 14)
          intro words failed unfailed
          exact watch_done unfailed
        apply wp_seq read
        intro bd failed unfailed
        rw [unfailed]
        exact watch_done fine
      · exact watch_done fine

theorem configWatch_idles : Idles configWatch (fun _ _ => True) (· = false) where
  stable := configWatch_stable _
  jiffiesReady _ _ := trivial
  jiffies _ _ _ here clock := clock.2.trans here
  sleepReady _ _ := trivial
  sleep _ _ _ here slept := slept.2.trans here
  spinReady _ _ := trivial

theorem signed_of_ended {ret : Int} {failed : Bool}
    (ended : (ret = 0 ∧ failed = false) ∨ (ret = -etimedout ∧ failed = false)) :
    Signed ret failed := by
  rcases ended with ⟨hit, unfailed⟩ | ⟨late, unfailed⟩
  · rw [hit, unfailed]
    exact signed_zero
  · rw [late, unfailed]
    exact signed_errno (show IsErrno (-etimedout) by decide)

theorem pcieRingWaitU32_signed (t : Timing) (base : Mapping) (off : Nat) (want : BitVec 32)
    (equal : Bool) (timeoutMs : Nat) :
    configWatch.wp (fun _ _ => True) Signed (pcieRingWaitU32 t base off want equal timeoutMs)
      false := by
  apply wp_mono (pcieRingWaitU32_wp configWatch_idles (configWatch_stable (· = false)) t base off
    want equal timeoutMs (fun _ _ => trivial) (fun _ _ _ here read _ => read.2.trans here)
    (fun _ _ _ here read _ => read.2.trans here) rfl)
  exact fun ret failed ended => signed_of_ended ended

theorem configWatch_pollReads (base : Mapping) :
    PollReads configWatch (fun _ _ => True) base (· = false) (fun _ failed => failed = false)
      (fun _ _ failed => failed = false) (· = false) where
  usedStable _ := configWatch_stable _
  numStable _ _ := configWatch_stable _
  settled := configWatch_stable _
  usedReady _ _ := trivial
  readUsed _ _ _ here read := read.2.trans here
  numReady _ _ _ := trivial
  readNum _ _ _ _ here read := read.2.trans here
  availReady _ _ _ _ := trivial
  idle _ _ _ _ _ here read _ := read.2.trans here
  busy _ _ _ _ _ here read _ := read.2.trans here

theorem pcieRingXferPoll_signed (t : Timing) (base : Mapping) (timeoutMs : Nat) :
    configWatch.wp (fun _ _ => True) Signed (pcieRingXferPoll t base timeoutMs) false := by
  apply wp_mono (pcieRingXferPoll_wp configWatch_idles (configWatch_pollReads base) t timeoutMs rfl)
  exact fun ret failed ended => signed_of_ended ended

theorem pcieRingCtxInit_signed (base : Mapping) (ringMapSize : BitVec 64) :
    configWatch.wp (fun _ _ => True) (fun result => Signed result.1)
      (pcieRingCtxInit base ringMapSize) false := by
  have refused : Signed (-einval) false := signed_errno (show IsErrno (-einval) by decide)
  apply watch_perform; intro num _
  apply watch_perform; intro maxBlk _
  split
  · exact watch_done refused
  · split
    · exact watch_done refused
    · apply watch_perform; intro avail _
      exact watch_done signed_zero

theorem pcieRingPostData_signed (t : Timing) (ring : PcieRingCtx) (chunk : List Byte)
    (csz : BitVec 32) (epAddr : BitVec 64) :
    configWatch.wp (fun _ _ => True) (fun result => Signed result.1)
      (pcieRingPostData t ring chunk csz epAddr) false := by
  have waits := pcieRingWaitU32_signed t ring.base rhAvailOff ring.curAvail false 5000
  apply watch_unless id Prod.fst waits (fun _ => rfl); intro _ _
  apply watch_perform; intro _ _
  apply watch_perform; intro _ _
  apply watch_perform; intro _ _
  apply watch_perform; intro _ _
  apply watch_perform; intro _ _
  apply watch_perform; intro _ _
  apply watch_perform; intro used _
  apply watch_perform; intro _ _
  exact watch_done signed_zero

theorem pcieRingPostCmd_signed (t : Timing) (ring : PcieRingCtx) (cmd size : BitVec 32)
    (addr : BitVec 64) :
    configWatch.wp (fun _ _ => True) (fun result => Signed result.1)
      (pcieRingPostCmd t ring cmd size addr) false := by
  have waits := pcieRingWaitU32_signed t ring.base rhAvailOff ring.curAvail false 5000
  apply watch_unless id Prod.fst waits (fun _ => rfl); intro _ _
  apply watch_perform; intro _ _
  apply watch_perform; intro _ _
  apply watch_perform; intro _ _
  apply watch_perform; intro _ _
  apply watch_perform; intro _ _
  apply watch_perform; intro used _
  apply watch_perform; intro _ _
  exact watch_done signed_zero

theorem pcieRingFillChunk_watch (src dataLen epPos : BitVec 64) (csz : BitVec 32) :
    configWatch.wp (fun _ _ => True) (fun _ failed => failed = false)
      (pcieRingFillChunk src dataLen epPos csz) false := by
  unfold pcieRingFillChunk
  split
  · exact watch_done rfl
  · apply watch_perform
    intro copied _
    cases copied with
    | none => exact watch_done rfl
    | some bytes => exact watch_done rfl

theorem pcieRingXferLoop_signed (t : Timing) (src dataLen loadAddr total : BitVec 64)
    (passes : Nat) (ring : PcieRingCtx) (epPos : BitVec 64) :
    configWatch.wp (fun _ _ => True) (fun result => Signed result.1)
      (pcieRingXferLoop t src dataLen loadAddr total passes ring epPos) false := by
  induction passes generalizing ring epPos with
  | zero =>
      apply watch_perform
      intro impossible
      exact nomatch impossible
  | succ passes ih =>
      unfold pcieRingXferLoop
      split
      · apply wp_seq (pcieRingFillChunk_watch _ _ _ _)
        intro filled failed unfailed
        rw [unfailed]
        cases filled with
        | none => exact watch_done (signed_errno (show IsErrno (-efault) by decide))
        | some chunk =>
            have posts := pcieRingPostData_signed t ring chunk
              (pcieRingChunkSize total epPos) (loadAddr + epPos)
            apply watch_unless Prod.fst Prod.fst posts (fun _ => rfl)
            intro posted _
            exact ih posted.2 _
      · exact watch_done signed_zero

theorem pcieRingXferUser_signed (t : Timing) (base : Mapping) (ringMapSize userBase : BitVec 64)
    (img : FwImageDesc) :
    configWatch.wp (fun _ _ => True) Signed (pcieRingXferUser t base ringMapSize userBase img)
      false := by
  apply watch_perform
  intro chunk _
  split
  · exact watch_done (signed_errno (show IsErrno (-enomem) by decide))
  · apply watch_unless Prod.fst id (pcieRingCtxInit_signed base ringMapSize) fun _ => rfl
    intro opened _
    apply watch_unless Prod.fst id (pcieRingXferLoop_signed t _ _ _ _ _ _ _) fun _ => rfl
    intro sent _
    apply watch_unless Prod.fst id (pcieRingPostCmd_signed t _ _ _ _) fun _ => rfl
    intro _ _
    exact pcieRingXferPoll_signed t base 5000

/-! The firmware transfer -/

theorem xferImages_signed (t : Timing) (base : Mapping) (ringMapSize : BitVec 64) (req : FwXfer)
    (types : List (BitVec 32)) :
    configWatch.wp (fun _ _ => True) Signed (xferImages t base ringMapSize req types) false := by
  induction types with
  | nil => exact watch_done signed_zero
  | cons type rest ih =>
      unfold xferImages
      split
      · apply watch_perform
        intro impossible
        exact nomatch impossible
      · rename_i img _
        have sends := pcieRingXferUser_signed t base ringMapSize req.fwUserPtr img
        apply watch_unless id id sends (fun _ => rfl); intro _ _
        exact ih

theorem xferToEp_signed (t : Timing) (base : Mapping) (ringMapSize : BitVec 64) (req : FwXfer) :
    configWatch.wp (fun _ _ => True) Signed (xferToEp t base ringMapSize req) false := by
  have ready : configWatch.wp (fun _ _ => True) Signed (pcieRingWaitEpReady t base) false := by
    apply watch_unless id id (pcieRingWaitU32_signed t base _ _ _ _) (fun _ => rfl); intro _ _
    exact pcieRingWaitU32_signed t base _ _ _ _
  apply watch_unless id id ready (fun _ => rfl); intro _ _
  exact xferImages_signed t base ringMapSize req pcieFwXferOrder

theorem pcieXferFirmwareLocked_signed (t : Timing) (req : FwXfer) (e : Entry) :
    configWatch.wp (fun _ _ => True) (fun result => Signed result.1)
      (pcieXferFirmwareLocked t req e) false := by
  unfold pcieXferFirmwareLocked
  split
  · exact watch_done (signed_errno (show IsErrno (-enodev) by decide))
  · split
    · exact watch_done (signed_errno (show IsErrno (-ebusy) by decide))
    · apply watch_unless Prod.fst Prod.fst (pcieDevRefreshBoardInfoLocked_signed e) fun _ => rfl
      intro result _
      split
      · rename_i pdev base _ _
        apply watch_perform; intro _ _
        apply watch_unless id Prod.fst (xferToEp_signed t base _ req) (fun _ => rfl); intro _ _
        exact watch_done signed_zero
      · apply watch_perform
        intro impossible
        exact nomatch impossible

theorem pcieIoctlXferFirmwareOn_signed (t : Timing) (argp : Option FwXfer) (s : Platform) :
    configWatch.wp (fun _ _ => True) (fun result => Signed result.1)
      (pcieIoctlXferFirmwareOn t argp s) false := by
  unfold pcieIoctlXferFirmwareOn pcieIoctlXferFirmware
  cases argp with
  | none => exact watch_done (signed_errno (show IsErrno (-efault) by decide))
  | some req =>
      have refused : Signed (-einval) false := signed_errno (show IsErrno (-einval) by decide)
      dsimp only
      split
      · split
        · apply wp_seq (pcieXferFirmwareLocked_signed t req _)
          intro result failed signed
          exact watch_done signed
        · exact watch_done refused
      · exact watch_done refused

/-! The H2D paths -/

theorem h2dCodes_perform {α : Type} {post : α → Unit → Prop} {op : H2dOp}
    {next : op.Reply → H2d α} (rest : ∀ reply, H2dConforms op reply →
      (ofReplies H2dConforms).wp (fun _ _ => True) post (next reply) ()) :
    (ofReplies H2dConforms).wp (fun _ _ => True) post (h2d op >>= next) () :=
  ofReplies_perform trivial rest

theorem h2dCodes_errno {ret : Int} (errno : IsErrno ret) :
    (ofReplies H2dConforms).wp (fun _ _ => True) (fun ret _ => Conforms ret) (.done ret) () :=
  ofReplies_done (Or.inr errno)

theorem pcieH2dFileLoop_conforms (bus : BitVec 32) (reads pos : Nat) (epAddr : BitVec 64) :
    (ofReplies H2dConforms).wp (fun _ _ => True) (fun ret _ => Conforms ret)
      (pcieH2dFileLoop bus reads pos epAddr) () := by
  induction reads generalizing pos epAddr with
  | zero =>
      apply h2dCodes_perform
      intro impossible
      exact nomatch impossible
  | succ reads ih =>
      apply h2dCodes_perform
      intro nread errs
      split
      · exact ofReplies_done (Or.inr errs)
      · exact ofReplies_done (Or.inl rfl)
      · apply h2dCodes_perform
        intro ret conforms
        split
        · exact ofReplies_done conforms
        · exact ih _ _

theorem pcieH2dBufferLoop_conforms (bus : BitVec 32) (src size epAddr : BitVec 64) (passes : Nat)
    (offset : BitVec 64) :
    (ofReplies H2dConforms).wp (fun _ _ => True) (fun ret _ => Conforms ret)
      (pcieH2dBufferLoop bus src size epAddr passes offset) () := by
  induction passes generalizing offset with
  | zero =>
      apply h2dCodes_perform
      intro impossible
      exact nomatch impossible
  | succ passes ih =>
      unfold pcieH2dBufferLoop
      split
      · apply h2dCodes_perform
        intro copied _
        cases copied with
        | none => exact ofReplies_done (Or.inr (show IsErrno (-efault) by decide))
        | some bytes =>
            apply h2dCodes_perform
            intro ret conforms
            split
            · exact ofReplies_done conforms
            · exact ih _
      · exact ofReplies_done (Or.inl rfl)

theorem h2dEntryBus_errno {e : Entry} {err : Int} (refused : h2dEntryBus e = .error err) :
    Conforms err := by
  unfold h2dEntryBus at refused
  split at refused
  · split at refused
    · cases refused
      exact Or.inr (by decide)
    · cases refused
  · cases refused
    exact Or.inr (by decide)

theorem pcieH2dSendOpened_conforms (bus : BitVec 32) (reads : Nat) (epAddr : BitVec 64) :
    (ofReplies H2dConforms).wp (fun _ _ => True) (fun ret _ => Conforms ret)
      (pcieH2dSendOpened bus reads epAddr) () := by
  apply h2dCodes_perform
  intro kbuf _
  split
  · exact h2dCodes_errno (by decide)
  · apply wp_seq (pcieH2dFileLoop_conforms bus reads 0 epAddr)
    intro ret _ conforms
    apply h2dCodes_perform; intro _ _
    exact ofReplies_done conforms

theorem pcieH2dSendPath_conforms (bus : BitVec 32) (reads : Nat) (path : List Byte)
    (epAddr : BitVec 64) :
    (ofReplies H2dConforms).wp (fun _ _ => True) (fun ret _ => Conforms ret)
      (pcieH2dSendPath bus reads path epAddr) () := by
  apply h2dCodes_perform
  intro found _
  split
  · exact h2dCodes_errno (by decide)
  · apply h2dCodes_perform
    intro opened conforms
    split
    · apply h2dCodes_perform; intro _ _
      exact ofReplies_done conforms
    · apply wp_seq (pcieH2dSendOpened_conforms bus reads epAddr)
      intro ret _ conforms
      apply h2dCodes_perform; intro _ _
      apply h2dCodes_perform; intro _ _
      exact ofReplies_done conforms

theorem pcieH2dSendCopied_conforms (bus : BitVec 32) (src size epAddr : BitVec 64) :
    (ofReplies H2dConforms).wp (fun _ _ => True) (fun ret _ => Conforms ret)
      (pcieH2dSendCopied bus src size epAddr) () := by
  apply h2dCodes_perform
  intro found _
  split
  · exact h2dCodes_errno (by decide)
  · apply h2dCodes_perform
    intro kbuf _
    split
    · apply h2dCodes_perform; intro _ _
      exact h2dCodes_errno (by decide)
    · apply wp_seq (pcieH2dBufferLoop_conforms bus src size epAddr _ _)
      intro ret _ conforms
      apply h2dCodes_perform; intro _ _
      apply h2dCodes_perform; intro _ _
      exact ofReplies_done conforms

theorem pcieIoctlH2dSendFile_conforms (reads : Nat) (copied : Option H2dSendFile) :
    (ofReplies H2dConforms).wp (fun _ _ => True) (fun ret _ => Conforms ret)
      (pcieIoctlH2dSendFile reads copied) () := by
  unfold pcieIoctlH2dSendFile
  split
  · exact h2dCodes_errno (by decide)
  · split
    · exact h2dCodes_errno (by decide)
    · split
      · exact h2dCodes_errno (by decide)
      · apply h2dCodes_perform
        intro e _
        split
        · rename_i refusal
          exact ofReplies_done (h2dEntryBus_errno refusal)
        · exact pcieH2dSendPath_conforms _ reads _ _

theorem pcieIoctlH2dSendBuffer_conforms (copied : Option H2dSendBuffer) :
    (ofReplies H2dConforms).wp (fun _ _ => True) (fun ret _ => Conforms ret)
      (pcieIoctlH2dSendBuffer copied) () := by
  unfold pcieIoctlH2dSendBuffer
  split
  · exact h2dCodes_errno (by decide)
  · split
    · exact h2dCodes_errno (by decide)
    · split
      · exact h2dCodes_errno (by decide)
      · apply h2dCodes_perform
        intro e _
        split
        · rename_i refusal
          exact ofReplies_done (h2dEntryBus_errno refusal)
        · exact pcieH2dSendCopied_conforms _ _ _ _

/-! The call -/

/-- What a call has shown so far: the request it has copied, and whether a config write failed. -/
structure CallRecord where
  request : Option FwXfer := none
  configFailed : Bool := false

/-- The services of a whole call. -/
def fileCalls : Machine FileOp FileOp.Reply CallRecord where
  answer record op reply record' :=
    match op, reply with
    | .copyXferFirmware _, copied => record' = { record with request := copied }
    | .kernel op, reply => ConfigReply op reply ∧
        record' = { record with configFailed := watched record.configFailed op reply }
    | .h2d op, reply => H2dConforms op reply ∧ record' = record
    | _, _ => record' = record
  interfere _ _ := False

theorem fileCalls_stable (assertion : CallRecord → Prop) : fileCalls.Stable assertion :=
  fun _ _ _ impossible => nomatch impossible

theorem onKernel_wp {α : Type} {post : α → Bool → Prop} {program : Host α} {failed : Bool}
    (holds : configWatch.wp (fun _ _ => True) post program failed) (request : Option FwXfer) :
    fileCalls.wp (fun _ _ => True)
      (fun value record => post value record.configFailed ∧ record.request = request)
      (onKernel program) ⟨request, failed⟩ := by
  have related : ∀ failed : Bool, fileCalls.Stable (· = ⟨request, failed⟩) :=
    fun _ => fileCalls_stable _
  apply wp_mono (wp_interp (fun failed record => record = ⟨request, failed⟩) related ?_ holds rfl)
  · intro value record result
    obtain ⟨failed', posted, rfl⟩ := result
    exact ⟨posted, rfl⟩
  · intro failed record op same _
    subst same
    apply wp_call (fileCalls_stable (· = ⟨request, failed⟩)) rfl fun _ _ => trivial
    rintro _ reply record' rfl ⟨replied, rfl⟩
    exact wp_done (fileCalls_stable (· = ⟨request, watched failed op reply⟩)) rfl
      fun _ same => ⟨_, ⟨replied, rfl⟩, same⟩

theorem onH2d_wp {α : Type} {post : α → Unit → Prop} {program : H2d α}
    (holds : (ofReplies H2dConforms).wp (fun _ _ => True) post program ()) (record : CallRecord) :
    fileCalls.wp (fun _ _ => True) (fun value record' => post value () ∧ record' = record)
      (onH2d program) record := by
  apply wp_mono (wp_interp (fun _ record' => record' = record) (fun _ => fileCalls_stable _) ?_
    holds rfl)
  · intro value record' result
    obtain ⟨_, posted, same⟩ := result
    exact ⟨posted, same⟩
  · intro _ record' op same _
    subst same
    apply wp_call (fileCalls_stable (· = record')) rfl fun _ _ => trivial
    rintro _ reply record'' rfl ⟨replied, rfl⟩
    exact wp_done (fileCalls_stable (· = _)) rfl fun _ same => ⟨(), replied, same⟩

theorem file_done {α : Type} {post : α → CallRecord → Prop} {value : α} {record : CallRecord}
    (holds : post value record) : fileCalls.wp (fun _ _ => True) post (.done value) record :=
  wp_done (fileCalls_stable (· = record)) rfl fun _ same => same ▸ holds

theorem file_perform {β : Type} {post : β → CallRecord → Prop} {op : FileOp}
    {next : op.Reply → FileCall β} {record : CallRecord}
    (rest : ∀ reply record', fileCalls.answer record op reply record' →
      fileCalls.wp (fun _ _ => True) post (next reply) record') :
    fileCalls.wp (fun _ _ => True) post (FileOp.perform op >>= next) record := by
  apply wp_perform (fileCalls_stable (· = record)) rfl fun _ _ => trivial
  rintro _ reply record' rfl answered
  exact rest reply record' answered

theorem pcieIoctlQueryPlatformInfo_conforms (argp : BitVec 64) (s : Platform)
    (record : CallRecord) :
    fileCalls.wp (fun _ _ => True) (fun result _ => Conforms result.1)
      (pcieIoctlQueryPlatformInfo argp s) record := by
  unfold pcieIoctlQueryPlatformInfo
  split
  · exact file_done (Or.inr (show IsErrno (-einval) by decide))
  · apply wp_seq (onKernel_wp (wp_trivial _ record.configFailed) record.request)
    intro queried record' _
    apply file_perform
    intro copied _ _
    split
    · exact file_done (Or.inr (show IsErrno (-efault) by decide))
    · exact file_done (Or.inl rfl)

theorem pcieRemoveHot_wp (req : Option FwXfer) (ret : Int) (record : CallRecord) :
    fileCalls.wp (fun _ _ => True) (fun _ record' => record' = record) (pcieRemoveHot req ret)
      record := by
  unfold pcieRemoveHot
  split
  · exact file_done rfl
  · split
    · split
      · exact file_done rfl
      · apply file_perform
        intro tested record₁ same
        have same : record₁ = record := same
        subst same
        split
        · exact file_done rfl
        · apply file_perform
          intro pdev record₂ same
          have same : record₂ = record₁ := same
          subst same
          apply wp_call (fileCalls_stable (· = record₂)) rfl fun _ _ => trivial
          rintro _ _ record₃ rfl same
          exact file_done same
    · exact file_done rfl

/-- The slot that the request names was put into BOOTING. -/
def BootsSlot (request : Option FwXfer) (s s' : Platform) : Prop :=
  ∃ req index, request = some req ∧ req.slotId.toNat = index.val ∧
    (s.devs index).state ≠ .booting ∧ (s'.devs index).state = .booting

theorem pcieIoctlXferFirmwareOn_boots {t : Timing} {argp : Option FwXfer} {s s' : Platform}
    (returned : Returns (fun _ _ => True) (pcieIoctlXferFirmwareOn t argp s) (0, s')) :
    BootsSlot argp s s' := by
  have failed : ∀ {err : Int} {value : Platform}, err ≠ 0 →
      ¬ Returns (fun (op : Op) (_ : op.Reply) => True) (pure (err, value)) (0, s') := by
    intro err value nonzero done
    have same := (returns_done_iff _ _).mp done
    exact nonzero (congrArg Prod.fst same).symm
  unfold pcieIoctlXferFirmwareOn at returned
  cases argp with
  | none => exact absurd returned (failed (show -efault ≠ 0 by decide))
  | some req =>
      dsimp only at returned
      split at returned
      · rename_i inside
        obtain ⟨result, attempted, returned⟩ := (returns_bind_iff _ _ _).mp returned
        obtain ⟨ret, e'⟩ := result
        cases (returns_done_iff _ _).mp returned
        refine ⟨req, ⟨req.slotId.toNat, inside⟩, rfl, rfl, ?_⟩
        rw [Platform.setDev_same]
        unfold pcieIoctlXferFirmware at attempted
        split at attempted
        · rcases pcieXferFirmwareLocked_returns attempted with
            ⟨nonzero, -⟩ | ⟨-, -, idle, -, mapped, -, booted⟩
          · exact absurd rfl nonzero
          · rw [idle, booted]
            exact ⟨by decide, rfl⟩
        · have refused := congrArg Prod.fst ((returns_done_iff _ _).mp attempted)
          exact absurd refused (show (0 : Int) ≠ -einval by decide)
      · exact absurd returned (failed (show -einval ≠ 0 by decide))

theorem pcieIoctlXferFirmwareWhole_signed (t : Timing) (argp : BitVec 64) (s : Platform) :
    fileCalls.wp (fun _ _ => True)
      (fun result record => Signed result.1 record.configFailed ∧
        (result.1 = 0 → BootsSlot record.request s result.2))
      (pcieIoctlXferFirmwareWhole t argp s) {} := by
  apply file_perform
  rintro req _ rfl
  have signed := wp_returns (pcieIoctlXferFirmwareOn_signed t req s)
  apply wp_seq (onKernel_wp signed req)
  intro result record ended
  obtain ⟨⟨signed, returned⟩, copied⟩ := ended
  obtain ⟨ret, s'⟩ := result
  apply wp_seq (pcieRemoveHot_wp req ret record)
  intro _ record' same
  rw [same]
  apply file_done
  refine ⟨signed, fun zero => ?_⟩
  have zero : ret = 0 := zero
  subst zero
  rw [copied]
  exact pcieIoctlXferFirmwareOn_boots returned

/-- 0 or a negative errno, and negative where a transfer has not put its slot into BOOTING. -/
def FailureReported (cmd : BitVec 32) (s : Platform) (result : Int × Platform)
    (record : CallRecord) : Prop :=
  Conforms result.1 ∧ (cmd = ambaPciXferFirmware →
    ¬ BootsSlot record.request s result.2 → IsErrno result.1)

theorem Signed.reported_iff {cmd : BitVec 32} {s : Platform} {result : Int × Platform}
    {record : CallRecord} (signed : Signed result.1 record.configFailed)
    (boots : result.1 = 0 → BootsSlot record.request s result.2) :
    FailureReported cmd s result record ↔ record.configFailed = false := by
  constructor
  · intro reported
    apply signed.unfailed
    rcases reported.1 with zero | errno
    · omega
    · exact Int.le_of_lt errno.2
  · intro unfailed
    rw [unfailed] at signed
    refine ⟨signed, fun _ unbooted => ?_⟩
    rcases signed with zero | errno
    · exact absurd (boots zero) unbooted
    · exact errno

theorem pcieFileIoctl_conforms (t : Timing) (reads : Nat) {cmd : BitVec 32}
    (other : cmd ≠ ambaPciXferFirmware) (arg : BitVec 64) (s : Platform) :
    fileCalls.wp (fun _ _ => True) (fun result _ => Conforms result.1)
      (pcieFileIoctl t reads cmd arg s) {} := by
  unfold pcieFileIoctl
  rw [if_neg other]
  split
  · exact pcieIoctlQueryPlatformInfo_conforms arg s {}
  · split
    · apply file_perform
      rintro req _ rfl
      apply wp_seq (onH2d_wp (pcieIoctlH2dSendFile_conforms reads req) {})
      intro ret _ ended
      exact file_done ended.1
    · split
      · apply file_perform
        rintro req _ rfl
        apply wp_seq (onH2d_wp (pcieIoctlH2dSendBuffer_conforms req) {})
        intro ret _ ended
        exact file_done ended.1
      · exact file_done (Or.inr (show IsErrno (-enotty) by decide))

/-- Every command from every table: what user space sees of a failure is a negative errno exactly
unless a config write failed under a firmware transfer. -/
theorem file_ioctl_errnos_iff (t : Timing) (reads : Nat) (cmd : BitVec 32) (arg : BitVec 64)
    (s : Platform) (result : Int × Platform) (record : CallRecord)
    (run : fileCalls.Steps (pcieFileIoctl t reads cmd arg s, {}) (.done result, record)) :
    FailureReported cmd s result record ↔
      ¬ (cmd = ambaPciXferFirmware ∧ record.configFailed = true) := by
  by_cases transfer : cmd = ambaPciXferFirmware
  · rw [transfer] at run ⊢
    have whole : pcieFileIoctl t reads ambaPciXferFirmware arg s =
        pcieIoctlXferFirmwareWhole t arg s := by
      unfold pcieFileIoctl
      rw [if_neg (by decide), if_pos rfl]
    rw [whole] at run
    have ended := wp_post (pcieIoctlXferFirmwareWhole_signed t arg s) run
    rw [ended.1.reported_iff ended.2]
    simp
  · have conforms := wp_post (pcieFileIoctl_conforms t reads transfer arg s) run
    have reported : FailureReported cmd s result record :=
      ⟨conforms, fun isTransfer => absurd isTransfer transfer⟩
    exact ⟨fun _ failed => transfer failed.1, fun _ => reported⟩

/-! A card whose config space does not answer -/

/-- The replies of a willing card, whose config writes return `written`. -/
def writeReply (written : Int) : (op : Op) → Option op.Reply
  | .pciWriteConfigByte _ _ _ => some written
  | op => promptReply op

theorem writeReply_conforms {written : Int} (code : 0 ≤ written) {op : Op} {reply : op.Reply}
    (replied : writeReply written op = some reply) : ConfigReply op reply := by
  cases op with
  | pciWriteConfigByte pdev register value =>
      cases replied
      exact code
  | _ => trivial

/-- A small transfer to that card. -/
def fileDriver (written : Int) : Driver FileOp FileOp.Reply CallRecord Unit where
  answer record
    | .copyXferFirmware _ => some (some smallRequest, { record with request := some smallRequest })
    | .kernel op => (writeReply written op).map fun reply =>
        (reply, { record with configFailed := watched record.configFailed op reply })
    | .readPdev _ => some (some (cardAt 1 1 ambaPciTargetDeviceId), record)
    | .stopAndRemove _ => some ((), record)
    | _ => none
  interfere _ _ := none

theorem fileDriver_sound {written : Int} (code : 0 ≤ written) :
    (fileDriver written).Sound fileCalls where
  answer record op reply record' answered := by
    cases op with
    | kernel op =>
        obtain ⟨reply', replied, same⟩ := Option.map_eq_some_iff.mp answered
        cases same
        exact ⟨writeReply_conforms code replied, rfl⟩
    | copyXferFirmware argp =>
        cases answered
        rfl
    | readPdev index =>
        cases answered
        rfl
    | stopAndRemove pdev =>
        cases answered
        rfl
    | _ => cases answered
  interfere _ _ _ impossible := nomatch impossible

/-- Where an `XFER_FIRMWARE` on the table with one card ends. -/
def romTransfer (written : Int) : Option ((Int × Platform) × CallRecord) :=
  (fileDriver written).eval (pcieFileIoctl ⟨1000, 1⟩ 0 ambaPciXferFirmware 0 romTable) {}

def romTransferEnd (written : Int) : (Int × Platform) × CallRecord :=
  (romTransfer written).getD ((0, romTable), {})

theorem romTransfer_steps {written : Int} (code : 0 ≤ written)
    (ran : (romTransfer written).isSome = true) :
    fileCalls.Steps (pcieFileIoctl ⟨1000, 1⟩ 0 ambaPciXferFirmware 0 romTable, {})
      (.done (romTransferEnd written).1, (romTransferEnd written).2) := by
  obtain ⟨ended, some⟩ := Option.isSome_iff_exists.mp ran
  have same : romTransferEnd written = ended := by
    unfold romTransferEnd
    rw [some]
    rfl
  rw [same]
  exact (fileDriver_sound code).eval some

/-- With config writes that succeed the slot boots, and 0 is returned. -/
theorem file_ioctl_errnos_iff_boots :
    fileCalls.Steps (pcieFileIoctl ⟨1000, 1⟩ 0 ambaPciXferFirmware 0 romTable, {})
      (.done (romTransferEnd 0).1, (romTransferEnd 0).2) ∧
    ((romTransferEnd 0).1.2.devs 0).state = .booting ∧
    FailureReported ambaPciXferFirmware romTable (romTransferEnd 0).1 (romTransferEnd 0).2 := by
  have run := romTransfer_steps (show (0 : Int) ≤ 0 by decide) (by decide +kernel)
  have booting : ((romTransferEnd 0).1.2.devs 0).state = .booting := by decide +kernel
  have working : (romTransferEnd 0).2.configFailed = false := by decide +kernel
  have reported := (file_ioctl_errnos_iff ⟨1000, 1⟩ 0 ambaPciXferFirmware 0 romTable _ _ run).mpr
    (by simp [working])
  exact ⟨run, booting, reported⟩

/-- `PCIBIOS_DEVICE_NOT_FOUND` reaches user space as a success, and nothing was sent. -/
theorem file_ioctl_returns_pcibios : Reachable anyReply ⟨1000, 1⟩ romTable ∧
    fileCalls.Steps (pcieFileIoctl ⟨1000, 1⟩ 0 ambaPciXferFirmware 0 romTable, {})
      (.done (romTransferEnd 0x86).1, (romTransferEnd 0x86).2) ∧
    (romTransferEnd 0x86).1.1 = 0x86 ∧
    ((romTransferEnd 0x86).1.2.devs 0).state = .disconnected ∧
    ¬ FailureReported ambaPciXferFirmware romTable (romTransferEnd 0x86).1
      (romTransferEnd 0x86).2 := by
  have returned : (romTransferEnd 0x86).1.1 = 0x86 := by decide +kernel
  refine ⟨romTable_reachable, romTransfer_steps (by decide) (by decide +kernel), returned,
    by decide +kernel, fun reported => ?_⟩
  have conforms := reported.1
  rw [returned] at conforms
  exact absurd conforms (by decide)

end AmbaPci

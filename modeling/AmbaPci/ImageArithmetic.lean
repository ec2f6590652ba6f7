import AmbaPci.XferRequest

set_option autoImplicit false

/- The arithmetic of `pcie_ring_xfer_user`: where it agrees with the integers. -/
namespace AmbaPci

open ByteMemory (Byte)
open Interaction Interaction.Machine

/-- `ep_pos`: how many bytes of the image, its padding included, were published. -/
def sentBytes : List EpAction → Nat
  | [] => 0
  | .write _ bytes :: rest => bytes.length + sentBytes rest
  | .command _ _ _ :: rest => sentBytes rest

theorem sentBytes_append (first second : List EpAction) :
    sentBytes (first ++ second) = sentBytes first + sentBytes second := by
  induction first with
  | nil => simp [sentBytes]
  | cons action rest ih =>
      cases action with
      | write addr bytes => simp only [List.cons_append, sentBytes, ih, Nat.add_assoc]
      | command cmd size addr => simp only [List.cons_append, sentBytes, ih]

/-- Every chunk was published for the integer address of its position, and an announced size is the
length of the image. -/
structure ActionsExact (img : FwImageDesc) (actions : List EpAction) : Prop where
  targets : ∀ before addr bytes, before ++ [.write addr bytes] <+: actions →
    addr.toNat = loadStart img + sentBytes before
  announced : ∀ before size addr, before ++ [.command ringCmdSetInitrdAddr size addr] <+: actions →
    size.toNat = img.length.toNat

/-- A fetch from user memory starts at the integer address of the position. -/
def SourceExact (userBase : BitVec 64) (img : FwImageDesc) (s : PostRecord) : Op → Prop
  | .copyFromUser src _ =>
      src.toNat = userBase.toNat + img.offset.toNat + sentBytes s.actions
  | _ => True

/-- In every transfer of the image, whatever the registers read and wherever it ends. -/
structure ExactTransfer (userBase : BitVec 64) (img : FwImageDesc) : Prop where
  rounded : img.length.toNat ≤ (pcieRingXferTotal img.length).toNat ∧
    (pcieRingXferTotal img.length).toNat < img.length.toNat + 16
  actions : ∀ t base ringMapSize user program s, (postRecorder user).Steps
    (pcieRingXferUser t base ringMapSize userBase img, {}) (program, s) →
      ActionsExact img s.actions
  sources : ∀ t base ringMapSize user op next s, (postRecorder user).Steps
    (pcieRingXferUser t base ringMapSize userBase img, {}) (.call op next, s) →
      SourceExact userBase img s op
  complete : ∀ t base ringMapSize user s, (postRecorder user).Steps
    (pcieRingXferUser t base ringMapSize userBase img, {}) (.done 0, s) →
      img.length.toNat ≤ sentBytes s.actions

/-- Where the last chunk of an image starts. -/
def lastChunkPos (length : BitVec 64) : Nat := 512 * ((length.toNat - 1) / 512)

/-- The integers that the words have to hold. -/
structure ArithmeticFits (userBase : BitVec 64) (img : FwImageDesc) : Prop where
  rounding : img.length.toNat + 15 < 2 ^ 64
  target : loadStart img + lastChunkPos img.length < 2 ^ 64
  source : userBase.toNat + img.offset.toNat + lastChunkPos img.length < 2 ^ 64
  announced : img.type = ambaPciFwImageRootfs → img.length.toNat < 2 ^ 32

/-! Positions -/

/-- What was published after `chunk` chunks: as many writes, each for the address of its chunk. -/
def ChunkWrites (loadAddr total : BitVec 64) : Nat → List EpAction → Prop
  | 0, actions => actions = []
  | chunk + 1, actions => ∃ before bytes,
      actions = before ++ [.write (loadAddr + ringPos total chunk) bytes] ∧
        bytes.length = ringChunkLen total chunk ∧ ChunkWrites loadAddr total chunk before

variable {userBase : BitVec 64} {img : FwImageDesc}

theorem ChunkWrites.sent {loadAddr total : BitVec 64} {chunk : Nat} {actions : List EpAction}
    (written : ChunkWrites loadAddr total chunk actions) (within : chunk ≤ ringChunks total) :
    sentBytes actions = (ringPos total chunk).toNat := by
  induction chunk generalizing actions with
  | zero =>
      have none : actions = [] := written
      rw [none, ringPos_zero]
      rfl
  | succ chunk ih =>
      obtain ⟨before, bytes, rfl, length, earlier⟩ := written
      rw [sentBytes_append, ih earlier (by omega), ringPos_toNat, ringPos_toNat]
      simp only [sentBytes, length, ringChunkLen]
      unfold ringChunks at within
      omega

/-- The rounded length of an image that is not empty, and its chunks. -/
theorem total_of_rounding (rounding : img.length.toNat + 15 < 2 ^ 64)
    (positive : 0 < img.length.toNat) :
    (pcieRingXferTotal img.length).toNat = (img.length.toNat + 15) / 16 * 16 ∧
      512 * (ringChunks (pcieRingXferTotal img.length) - 1) = lastChunkPos img.length ∧
        0 < ringChunks (pcieRingXferTotal img.length) := by
  have total := pcieRingXferTotal_toNat img.length
  rw [if_pos rounding] at total
  unfold ringChunks lastChunkPos
  omega

theorem ArithmeticFits.chunkAddr (fits : ArithmeticFits userBase img)
    (positive : 0 < img.length.toNat) {chunk : Nat}
    (inside : chunk < ringChunks (pcieRingXferTotal img.length)) :
    (pcieFwLoadAddr img.type + ringPos (pcieRingXferTotal img.length) chunk).toNat =
      loadStart img + 512 * chunk := by
  have last := (total_of_rounding fits.rounding positive).2.1
  have target := fits.target
  have start : (pcieFwLoadAddr img.type).toNat = loadStart img := rfl
  rw [BitVec.toNat_add, ringPos_of_lt inside, start, Nat.mod_eq_of_lt (by omega)]

theorem ArithmeticFits.sourceAddr (fits : ArithmeticFits userBase img)
    (positive : 0 < img.length.toNat) {chunk : Nat}
    (inside : chunk < ringChunks (pcieRingXferTotal img.length)) :
    (userBase + img.offset + ringPos (pcieRingXferTotal img.length) chunk).toNat =
      userBase.toNat + img.offset.toNat + 512 * chunk := by
  have last := (total_of_rounding fits.rounding positive).2.1
  have source := fits.source
  rw [BitVec.toNat_add, BitVec.toNat_add, ringPos_of_lt inside, Nat.mod_add_mod,
    Nat.mod_eq_of_lt (by omega)]

theorem actionsExact_nil (img : FwImageDesc) : ActionsExact img [] := by
  constructor
  · intro before addr bytes split
    simp at split
  · intro before size addr split
    simp at split

/-- One more action is exact when it is so itself. -/
theorem ActionsExact.snoc {actions : List EpAction} (exact' : ActionsExact img actions)
    {action : EpAction}
    (target : ∀ addr bytes, action = .write addr bytes →
      addr.toNat = loadStart img + sentBytes actions)
    (announced : ∀ size addr, action = .command ringCmdSetInitrdAddr size addr →
      size.toNat = img.length.toNat) : ActionsExact img (actions ++ [action]) := by
  constructor
  · intro before addr bytes split
    rcases List.prefix_concat_iff.mp split with last | earlier
    · obtain ⟨rfl, here⟩ := List.append_inj' last rfl
      exact target addr bytes (List.singleton_inj.mp here).symm
    · exact exact'.targets before addr bytes earlier
  · intro before size addr split
    rcases List.prefix_concat_iff.mp split with last | earlier
    · obtain ⟨rfl, here⟩ := List.append_inj' last rfl
      exact announced size addr (List.singleton_inj.mp here).symm
    · exact exact'.announced before size addr earlier

theorem ChunkWrites.exact (fits : ArithmeticFits userBase img) (positive : 0 < img.length.toNat)
    {chunk : Nat} {actions : List EpAction}
    (within : chunk ≤ ringChunks (pcieRingXferTotal img.length))
    (written : ChunkWrites (pcieFwLoadAddr img.type) (pcieRingXferTotal img.length) chunk actions) :
    ActionsExact img actions := by
  induction chunk generalizing actions with
  | zero =>
      have none : actions = [] := written
      rw [none]
      exact actionsExact_nil img
  | succ chunk ih =>
      obtain ⟨before, bytes, rfl, length, earlier⟩ := written
      refine (ih (by omega) earlier).snoc ?_ nofun
      rintro _ _ ⟨⟩
      rw [fits.chunkAddr positive within, earlier.sent (by omega), ringPos_of_lt within]

/-- The closing command announces the length. -/
theorem ChunkWrites.closed (fits : ArithmeticFits userBase img) (positive : 0 < img.length.toNat)
    {actions : List EpAction}
    (written : ChunkWrites (pcieFwLoadAddr img.type) (pcieRingXferTotal img.length)
      (ringChunks (pcieRingXferTotal img.length)) actions) (addr : BitVec 64) :
    ActionsExact img (actions ++ [.command (pcieRingTail img.type img.length).1
      (pcieRingTail img.type img.length).2 addr]) := by
  refine (written.exact fits positive (Nat.le_refl _)).snoc nofun ?_
  intro size addr' closing
  injection closing with cmd same
  by_cases rootfs : img.type = ambaPciFwImageRootfs
  · have small := fits.announced rootfs
    rw [← same, rootfs]
    show (img.length.setWidth 32).toNat = _
    rw [BitVec.toNat_setWidth, Nat.mod_eq_of_lt small]
  · exfalso
    revert cmd
    unfold pcieRingTail
    split
    · decide
    · split
      · decide
      · decide

/-! The transfer, with the writes it has published -/

section Transfer

variable {user : BitVec 64 → Byte} {guard : PostRecord → Op → Prop}

/-- What a guard has to allow along the transfer. -/
structure GuardsTransfer (guard : PostRecord → Op → Prop) (userBase : BitVec 64)
    (img : FwImageDesc) : Prop where
  chunks : ∀ chunk ≤ ringChunks (pcieRingXferTotal img.length), ∀ actions,
    ChunkWrites (pcieFwLoadAddr img.type) (pcieRingXferTotal img.length) chunk actions →
      Allows guard actions
  fetch : ∀ chunk < ringChunks (pcieRingXferTotal img.length), ∀ s : PostRecord, ∀ count,
    ChunkWrites (pcieFwLoadAddr img.type) (pcieRingXferTotal img.length) chunk s.actions →
      guard s (.copyFromUser
        (userBase + img.offset + ringPos (pcieRingXferTotal img.length) chunk) count)
  closing : ∀ actions addr,
    ChunkWrites (pcieFwLoadAddr img.type) (pcieRingXferTotal img.length)
      (ringChunks (pcieRingXferTotal img.length)) actions →
        Allows guard (actions ++ [.command (pcieRingTail img.type img.length).1
          (pcieRingTail img.type img.length).2 addr])

/-- Nothing half written, and `chunk` chunks published. -/
def ChunksWritten (img : FwImageDesc) (chunk : Nat) (s : PostRecord) : Prop :=
  ∃ actions, ChunkWrites (pcieFwLoadAddr img.type) (pcieRingXferTotal img.length) chunk actions ∧
    Published actions s

theorem ringChunkPass_written (guards : GuardsTransfer guard userBase img) (t : Timing)
    {chunk : Nat} (inside : chunk < ringChunks (pcieRingXferTotal img.length)) (ring : PcieRingCtx)
    {s : PostRecord} (holds : ChunksWritten img chunk s) :
    (postRecorder user).wp guard
      (fun posted s' => if posted.1 ≠ 0 then ChunksWritten img chunk s'
        else ChunksWritten img (chunk + 1) s')
      (ringChunkPass t (userBase + img.offset) img.length (pcieFwLoadAddr img.type)
        (pcieRingXferTotal img.length) (ringPos (pcieRingXferTotal img.length) chunk) ring) s := by
  obtain ⟨actions, written, published⟩ := holds
  apply wp_seq (pcieRingFillChunk_wp (postRecorder_stable (Published actions)) (fun _ _ => True)
    _ img.length _ _ ?_ ?_ published)
  · intro filled s' bounce
    obtain ⟨here, image⟩ := bounce
    cases filled with
    | none =>
        refine wp_done (postRecorder_stable (Published actions)) here fun s'' here' => ?_
        rw [if_pos (show (-efault : Int) ≠ 0 by decide)]
        exact ⟨actions, written, here'⟩
    | some bytes =>
        have length := (image bytes rfl).length
        apply wp_mono (pcieRingPostData_record t ring bytes _ _ length
          (guards.chunks chunk (by omega) actions written) here)
        intro posted s'' result
        split
        · rename_i failed
          rw [if_pos failed] at result
          exact ⟨actions, written, result⟩
        · rename_i zero
          rw [if_neg zero] at result
          refine ⟨_, ⟨actions, bytes, rfl, ?_, written⟩, result⟩
          rw [length, pcieRingChunkSize_toNat inside]
  · intro s' count here
    exact guards.fetch chunk inside s' count (here.2 ▸ written)
  · intro s' count reply s'' here copied
    exact ⟨copied.1 ▸ here, fun _ _ => trivial⟩

/-- Where a transfer can end: after a chunk, or with everything published. -/
def TransferEnded (img : FwImageDesc) (ret : Int) (s : PostRecord) : Prop :=
  (ret ≠ 0 ∧ ∃ chunk ≤ ringChunks (pcieRingXferTotal img.length), ChunksWritten img chunk s) ∨
    ∃ actions, ChunkWrites (pcieFwLoadAddr img.type) (pcieRingXferTotal img.length)
        (ringChunks (pcieRingXferTotal img.length)) actions ∧
      s.actions = actions ++ [.command (pcieRingTail img.type img.length).1
        (pcieRingTail img.type img.length).2 (pcieFwLoadAddr img.type)]

theorem transferEnded_failed {ret : Int} {s : PostRecord} {chunk : Nat} (failed : ret ≠ 0)
    (within : chunk ≤ ringChunks (pcieRingXferTotal img.length))
    (written : ChunksWritten img chunk s) :
    (postRecorder user).wp guard (TransferEnded img) (.done ret) s :=
  wp_done (postRecorder_stable (ChunksWritten img chunk)) written
    fun _ here => Or.inl ⟨failed, chunk, within, here⟩

theorem written_stages (guards : GuardsTransfer guard userBase img) (t : Timing) (base : Mapping)
    (ringMapSize : BitVec 64) :
    XferStages (postRecorder user) guard t base ringMapSize userBase img (Published [])
      (fun chunk _ => ChunksWritten img chunk) (TransferEnded img) where
  startStable := postRecorder_stable _
  stable _ _ := postRecorder_stable _
  allocReady s here := guards.chunks 0 (Nat.zero_le _) [] rfl s _ here.2 nofun
  alloc s reply s' here allocated := by rwa [postRecorder_quiet allocated trivial]
  refused s here := transferEnded_failed (by decide) (Nat.zero_le _) ⟨[], rfl, here⟩
  init s here := by
    have allows := guards.chunks 0 (Nat.zero_le _) [] rfl
    apply wp_mono (pcieRingCtxInit_record base ringMapSize allows here)
    intro init s' here'
    split
    · rename_i failed
      exact transferEnded_failed failed (Nat.zero_le _) ⟨[], rfl, here'⟩
    · exact ⟨[], rfl, here'⟩
  pass chunk ring s inside here := by
    apply wp_mono (ringChunkPass_written guards t inside ring here)
    intro posted s' result
    split
    · rename_i failed
      rw [if_pos failed] at result
      exact transferEnded_failed failed (by omega) result
    · rename_i zero
      rw [if_neg zero] at result
      exact result
  close ring s here := by
    obtain ⟨actions, written, published⟩ := here
    apply wp_mono (pcieRingPostCmd_record t ring _ _ _ (pcieRingTail_ne_data img.type img.length)
      (guards.chunks _ (Nat.le_refl _) actions written) published)
    intro closed s' result
    split
    · rename_i failed
      rw [if_pos failed] at result
      exact transferEnded_failed failed (Nat.le_refl _) ⟨actions, written, result⟩
    · rename_i zero
      rw [if_neg zero] at result
      apply wp_mono (pcieRingXferPoll_record t base 5000
        (guards.closing actions _ written) result)
      exact fun ret s'' polled => Or.inr ⟨actions, written, polled.2⟩

theorem pcieRingXferUser_written (guards : GuardsTransfer guard userBase img) (t : Timing)
    (base : Mapping) (ringMapSize : BitVec 64) :
    (postRecorder user).wp guard (TransferEnded img)
      (pcieRingXferUser t base ringMapSize userBase img) {} :=
  XferStages.wp (written_stages guards t base ringMapSize) ⟨rfl, rfl⟩

/-- The guard of the exact transfers: exact so far, and an exact source. -/
def ExactSoFar (userBase : BitVec 64) (img : FwImageDesc) (s : PostRecord) (op : Op) : Prop :=
  ActionsExact img s.actions ∧ SourceExact userBase img s op

theorem ArithmeticFits.guards (fits : ArithmeticFits userBase img)
    (positive : 0 < img.length.toNat) :
    GuardsTransfer (ExactSoFar userBase img) userBase img where
  chunks chunk within actions written s op same other := by
    refine ⟨same ▸ written.exact fits positive within, ?_⟩
    cases op with
    | copyFromUser src length => exact absurd rfl (other src length)
    | _ => trivial
  fetch chunk inside s count written := by
    refine ⟨written.exact fits positive (by omega), ?_⟩
    show (_ : BitVec 64).toNat = _
    rw [fits.sourceAddr positive inside, written.sent (by omega), ringPos_of_lt inside]
  closing actions addr written s op same other := by
    refine ⟨same ▸ written.closed fits positive addr, ?_⟩
    cases op with
    | copyFromUser src length => exact absurd rfl (other src length)
    | _ => trivial

theorem ChunkWrites.whole {actions : List EpAction}
    (written : ChunkWrites (pcieFwLoadAddr img.type) (pcieRingXferTotal img.length)
      (ringChunks (pcieRingXferTotal img.length)) actions) :
    sentBytes actions = (pcieRingXferTotal img.length).toNat := by
  rw [written.sent (Nat.le_refl _), ringPos_toNat, ringChunks]
  omega

theorem exactTransfer_of_fits (fits : ArithmeticFits userBase img)
    (positive : 0 < img.length.toNat) : ExactTransfer userBase img := by
  have rounded := (total_of_rounding fits.rounding positive).1
  have exact' : ∀ t base ringMapSize user, (postRecorder user).wp (ExactSoFar userBase img)
      (TransferEnded img) (pcieRingXferUser t base ringMapSize userBase img) {} :=
    fun t base ringMapSize _ => pcieRingXferUser_written (fits.guards positive) t base ringMapSize
  refine ⟨by omega, ?_, ?_, ?_⟩
  · intro t base ringMapSize user program s run
    cases program with
    | call op next => exact (wp_guard (exact' t base ringMapSize user) run).1
    | done ret =>
        rcases wp_post (exact' t base ringMapSize user) run with
          ⟨-, chunk, within, actions, written, published⟩ | ⟨actions, written, closed⟩
        · rw [published.2]
          exact written.exact fits positive within
        · rw [closed]
          exact written.closed fits positive _
  · intro t base ringMapSize user op next s run
    exact (wp_guard (exact' t base ringMapSize user) run).2
  · intro t base ringMapSize user s run
    rcases wp_post (exact' t base ringMapSize user) run with
      ⟨failed, -⟩ | ⟨actions, written, closed⟩
    · exact absurd rfl failed
    · rw [closed, sentBytes_append, written.whole]
      omega

/-! Every transfer that goes through shows what does not fit -/

theorem unguarded_guards (userBase : BitVec 64) (img : FwImageDesc) :
    GuardsTransfer unguarded userBase img where
  chunks _ _ actions _ := allows_unguarded actions
  fetch _ _ _ _ _ := trivial
  closing _ _ _ := allows_unguarded _

/-- A header that every image fits. -/
theorem wideRing_accepts : RingAccepts 4 16 0x10000 := ⟨by decide, by decide, by decide⟩

/-- A transfer that has published the whole image. -/
theorem pcieRingXferUser_ends (userBase : BitVec 64) (img : FwImageDesc)
    (user : BitVec 64 → Byte) :
    ∃ s actions, (postRecorder user).Steps
        (pcieRingXferUser onePoll 0 0x10000 userBase img, {}) (.done 0, s) ∧
      ChunkWrites (pcieFwLoadAddr img.type) (pcieRingXferTotal img.length)
        (ringChunks (pcieRingXferTotal img.length)) actions ∧
      s.actions = actions ++ [.command (pcieRingTail img.type img.length).1
        (pcieRingTail img.type img.length).2 (pcieFwLoadAddr img.type)] := by
  obtain ⟨ret, s, run, zero⟩ := pcieRingXferUser_canReturn (postRecorder_obliging user 4 16 4)
    wideRing_accepts 0 userBase img {}
  subst zero
  rcases wp_post (pcieRingXferUser_written (unguarded_guards userBase img) onePoll 0 0x10000) run
    with ⟨failed, -⟩ | ⟨actions, written, closed⟩
  · exact absurd rfl failed
  · exact ⟨s, actions, run, written, closed⟩

/-- The fetch of a chunk that lies in the image, at its position. -/
def FetchesChunk (userBase : BitVec 64) (img : FwImageDesc) (chunk : Nat) (s : PostRecord)
    (op : Op) : Prop :=
  ChunksWritten img chunk s ∧ ∃ count, op = .copyFromUser
    (userBase + img.offset + ringPos (pcieRingXferTotal img.length) chunk) count

/-- A transfer that has come to the fetch of a chunk. -/
theorem pcieRingXferUser_fetches (userBase : BitVec 64) (img : FwImageDesc)
    (user : BitVec 64 → Byte) {chunk : Nat}
    (inside : chunk < ringChunks (pcieRingXferTotal img.length))
    (image : 512 * chunk < img.length.toNat) :
    (postRecorder user).CanCall (FetchesChunk userBase img chunk)
      (pcieRingXferUser onePoll 0 0x10000 userBase img) {} := by
  have obliging := postRecorder_obliging user 4 16 4
  have guards := unguarded_guards userBase img
  refine pcieRingXferUser_reaches (fun chunk _ s => ChunksWritten img chunk s) 0 _ userBase
    img inside (obliging.alloc {}) ?_ ?_ ?_
  · intro s' allocated
    rw [postRecorder_quiet allocated trivial]
    have kept : (postRecorder user).wp unguarded (fun _ => Published [])
        (pcieRingCtxInit 0 0x10000) {} :=
      pcieRingCtxInit_record 0 0x10000 (allows_unguarded []) ⟨rfl, rfl⟩
    apply canReturn_mono (canReturn_and (pcieRingCtxInit_canReturn obliging wideRing_accepts 0 {})
      kept)
    intro init s'' both
    exact ⟨both.1.1, [], rfl, both.2⟩
  · intro before ring s' earlier written
    apply canReturn_mono (canReturn_and
      (ringChunkPass_canReturn obliging _ img.length _ _ _ ring s')
      (ringChunkPass_written guards onePoll (by omega) ring written))
    rintro _ s'' ⟨rfl, result⟩
    rw [if_neg (by simp)] at result
    exact ⟨rfl, result⟩
  · intro ring s' written
    have within : ¬ img.length ≤ ringPos (pcieRingXferTotal img.length) chunk := by
      rw [BitVec.le_def, ringPos_of_lt inside]
      omega
    apply canCall_bind
    unfold pcieRingFillChunk
    rw [if_neg within]
    exact canCall_here ⟨written, _, rfl⟩

theorem ExactTransfer.target (exact' : ExactTransfer userBase img)
    (rounding : img.length.toNat + 15 < 2 ^ 64) (positive : 0 < img.length.toNat) :
    loadStart img + lastChunkPos img.length < 2 ^ 64 := by
  obtain ⟨-, last, some⟩ := total_of_rounding rounding positive
  obtain ⟨s, actions, run, written, closed⟩ := pcieRingXferUser_ends userBase img fun _ => 0
  have size : ringChunks (pcieRingXferTotal img.length) =
      ringChunks (pcieRingXferTotal img.length) - 1 + 1 := by omega
  rw [size] at written
  obtain ⟨before, bytes, rfl, -, earlier⟩ := written
  have posted := exact'.actions _ _ _ _ _ s run
  rw [closed] at posted
  have here := posted.targets before _ bytes (List.prefix_append _ _)
  rw [earlier.sent (by omega), ringPos_of_lt (by omega), last] at here
  rw [← here]
  exact BitVec.isLt _

theorem ExactTransfer.source (exact' : ExactTransfer userBase img)
    (rounding : img.length.toNat + 15 < 2 ^ 64) (positive : 0 < img.length.toNat) :
    userBase.toNat + img.offset.toNat + lastChunkPos img.length < 2 ^ 64 := by
  obtain ⟨-, last, some⟩ := total_of_rounding rounding positive
  have image : lastChunkPos img.length < img.length.toNat := by
    unfold lastChunkPos
    omega
  obtain ⟨op, next, s, run, written, count, rfl⟩ := pcieRingXferUser_fetches userBase img
    (fun _ => 0) (show ringChunks (pcieRingXferTotal img.length) - 1 < _ by omega) (by omega)
  have here : (_ : BitVec 64).toNat = _ := exact'.sources _ _ _ _ _ next s run
  obtain ⟨actions, writes, published⟩ := written
  rw [published.2, writes.sent (by omega), ringPos_of_lt (by omega), last] at here
  rw [← here]
  exact BitVec.isLt _

theorem ExactTransfer.rootfsSize (exact' : ExactTransfer userBase img)
    (rootfs : img.type = ambaPciFwImageRootfs) : img.length.toNat < 2 ^ 32 := by
  obtain ⟨s, actions, run, -, closed⟩ := pcieRingXferUser_ends userBase img fun _ => 0
  have tail : pcieRingTail img.type img.length =
      (ringCmdSetInitrdAddr, img.length.setWidth 32) := by
    rw [rootfs]
    rfl
  have posted := exact'.actions _ _ _ _ _ s run
  rw [closed, tail] at posted
  have here := posted.announced actions _ _ List.prefix_rfl
  rw [← here]
  exact BitVec.isLt _

theorem fits_of_exactTransfer (exact' : ExactTransfer userBase img)
    (positive : 0 < img.length.toNat) : ArithmeticFits userBase img := by
  have rounding : img.length.toNat + 15 < 2 ^ 64 := by
    apply Nat.not_le.mp
    intro long
    have rounded := exact'.rounded.1
    rw [pcieRingXferTotal_toNat, if_neg (by omega)] at rounded
    omega
  exact ⟨rounding, exact'.target rounding positive, exact'.source rounding positive,
    exact'.rootfsSize⟩

end Transfer

/-- The arithmetic of an accepted image is exact in every transfer exactly when its rounded length,
the addresses of its last chunk and, for the root file system, the announced length fit their
words. -/
theorem exact_arithmetic_iff (req : FwXfer) (accepted : fwXferAccepted req = true)
    (img : FwImageDesc) (member : img ∈ req.images.toList) :
    ExactTransfer req.fwUserPtr img ↔ ArithmeticFits req.fwUserPtr img := by
  have positive := ((fwXferAccepted_checks accepted).1 img member).1
  exact ⟨fun exact' => fits_of_exactTransfer exact' positive,
    fun fits => exactTransfer_of_fits fits positive⟩

/-- A kernel of four chunks. -/
theorem exact_arithmetic_iff_small :
    ExactTransfer (kernelRequest 2000).fwUserPtr ⟨ambaPciFwImageKernel, 32, 2000⟩ :=
  (exact_arithmetic_iff (kernelRequest 2000) (by decide) ⟨ambaPciFwImageKernel, 32, 2000⟩
    (by decide)).mpr ⟨by decide, by decide, by decide, by decide⟩

/-- A request whose root file system is 4 GiB long. -/
def longRootfsRequest : FwXfer :=
  { kernelRequest 16 with
    fwSize := 0x200000000
    images := #v[⟨ambaPciFwImageDtb, 0, 16⟩, ⟨ambaPciFwImageRootfs, 16, 0x100000000⟩,
      ⟨ambaPciFwImageKernel, 32, 16⟩] }

/-- It is accepted, its types are the three images, and the root file system is announced with
size 0. -/
theorem exact_arithmetic_longRootfs :
    fwXferAccepted longRootfsRequest = true ∧ RequestComplete longRootfsRequest ∧
      ∃ img ∈ longRootfsRequest.images.toList,
        ¬ ExactTransfer longRootfsRequest.fwUserPtr img := by
  have accepted : fwXferAccepted longRootfsRequest = true := by decide
  have covered : pcieFwXferOrder ⊆ longRootfsRequest.images.toList.map (·.type) := by decide
  refine ⟨accepted, requestComplete_of_covered accepted covered,
    ⟨ambaPciFwImageRootfs, 16, 0x100000000⟩, by decide, fun exact' => ?_⟩
  have small := exact'.rootfsSize rfl
  revert small
  decide

end AmbaPci

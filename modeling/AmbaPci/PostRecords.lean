import AmbaPci.ImagePosts
import AmbaPci.RingRuns

set_option autoImplicit false

/- What the host posts, as it writes it: the words of each descriptor with the chunk of a DATA
descriptor, in the order of the writes to `used`. Where the ring keeps them is left out. -/
namespace AmbaPci

open ByteMemory
open Interaction Interaction.Machine

/-- The descriptor words and the chunk written since the last write of `used`, and what the host had
posted before. -/
structure PostRecord where
  words : List (BitVec 32) := []
  block : List Byte := []
  actions : List EpAction := []
  deriving DecidableEq, Repr

def PostRecord.publish (s : PostRecord) : PostRecord :=
  match s.words with
  | [cmd, size, addrLo, addrHi, blkid] =>
      let desc : EpDesc := ⟨cmd, size, addrLo, addrHi, blkid⟩
      { s with words := [], actions := s.actions ++ [desc.action (s.block.take size.toNat)] }
  | _ => { s with words := [] }

/-- A write to `used` publishes, every other is a descriptor word. The registers read anything. -/
def recordAnswer (user : BitVec 64 → Byte) (s : PostRecord) :
    (op : Op) → op.Reply → PostRecord → Prop
  | .writel _ _ off value, _, s' =>
      s' = if off = rhUsedOff then s.publish else { s with words := s.words ++ [value] }
  | .memcpyToio _ _ _ bytes, _, s' => s' = { s with block := bytes }
  | .copyFromUser src length, reply, s' =>
      s' = s ∧ ∀ bytes, reply = some bytes → bytes.toList = userBytes user src length
  | _, _, s' => s' = s

def postRecorder (user : BitVec 64 → Byte) : Machine Op Op.Reply PostRecord where
  answer := recordAnswer user
  interfere _ _ := False

section Recorder

variable {user : BitVec 64 → Byte}

theorem postRecorder_stable (assertion : PostRecord → Prop) :
    (postRecorder user).Stable assertion := fun _ _ _ impossible => nomatch impossible

theorem postRecorder_quiet {s s' : PostRecord} {op : Op} {reply : op.Reply}
    (answered : (postRecorder user).answer s op reply s') (quiet : op.Quiet) : s' = s := by
  cases op with
  | writel fn base off value => exact absurd quiet id
  | memcpyToio fn base off bytes => exact absurd quiet id
  | copyFromUser src length => exact absurd quiet id
  | _ => exact answered

/-- Nothing half written, and so much published. -/
def Published (actions : List EpAction) (s : PostRecord) : Prop :=
  s.words = [] ∧ s.actions = actions

variable {guard : PostRecord → Op → Prop}

/-- A guard that asks nothing but what was published, fetches from user memory apart. -/
def Allows (guard : PostRecord → Op → Prop) (actions : List EpAction) : Prop :=
  ∀ s op, s.actions = actions → (∀ src length, op ≠ .copyFromUser src length) → guard s op

theorem allows_unguarded (actions : List EpAction) : Allows unguarded actions :=
  fun _ _ _ _ => trivial

theorem published_idles {actions : List EpAction} (allows : Allows guard actions) :
    Idles (postRecorder user) guard (Published actions) where
  stable := postRecorder_stable _
  jiffiesReady s here := allows s .jiffies here.2 nofun
  jiffies _ _ _ here clock := by rwa [postRecorder_quiet clock trivial]
  sleepReady s here := allows s .usleepRange here.2 nofun
  sleep _ _ _ here slept := by rwa [postRecorder_quiet slept trivial]
  spinReady s here := allows s .spin here.2 nofun

theorem pcieRingW32_record {α : Type} {post : α → PostRecord → Prop} {fn : RingFn}
    {base : Mapping} {off : Nat} {value : BitVec 32} {next : Unit → Host α} {s : PostRecord}
    {actions : List EpAction} (allows : Allows guard actions) (published : s.actions = actions)
    (rest : (postRecorder user).wp guard post (next ())
      (if off = rhUsedOff then s.publish else { s with words := s.words ++ [value] })) :
    (postRecorder user).wp guard post (pcieRingW32 fn base off value >>= next) s := by
  refine wp_perform (postRecorder_stable (· = s)) rfl (fun s₁ same => ?_) ?_
  · exact allows s₁ _ (same ▸ published) nofun
  · intro s₁ _ s₂ same written
    subst same
    have there : s₂ = _ := written
    rw [there]
    exact rest

/-- The words of a descriptor are not the `used` register. -/
theorem pcieRingDesc_ne_used (curAvail num : BitVec 32) (offset : Nat) :
    pcieRingDesc curAvail num + offset ≠ rhUsedOff := by
  unfold pcieRingDesc rhDesc0Off rhUsedOff
  omega

/-- The five words, written in order. -/
theorem descriptor_record {α : Type} {post : α → PostRecord → Prop} {fn : RingFn}
    {base : Mapping} (curAvail num cmd size addrLo addrHi blkid : BitVec 32) {rest : Host α}
    {s : PostRecord} {actions : List EpAction} (allows : Allows guard actions)
    (published : s.actions = actions) (empty : s.words = [])
    (after : (postRecorder user).wp guard post rest
      { s with words := [cmd, size, addrLo, addrHi, blkid] }) :
    (postRecorder user).wp guard post
      (do
        pcieRingW32 fn base (pcieRingDesc curAvail num + 0) cmd
        pcieRingW32 fn base (pcieRingDesc curAvail num + 4) size
        pcieRingW32 fn base (pcieRingDesc curAvail num + 8) addrLo
        pcieRingW32 fn base (pcieRingDesc curAvail num + 12) addrHi
        pcieRingW32 fn base (pcieRingDesc curAvail num + 16) blkid
        rest) s := by
  refine pcieRingW32_record allows published ?_; rw [if_neg (pcieRingDesc_ne_used _ _ _)]
  refine pcieRingW32_record allows published ?_; rw [if_neg (pcieRingDesc_ne_used _ _ _)]
  refine pcieRingW32_record allows published ?_; rw [if_neg (pcieRingDesc_ne_used _ _ _)]
  refine pcieRingW32_record allows published ?_; rw [if_neg (pcieRingDesc_ne_used _ _ _)]
  refine pcieRingW32_record allows published ?_; rw [if_neg (pcieRingDesc_ne_used _ _ _)]
  rw [empty]
  exact after

theorem pcieRingWaitU32_record (t : Timing) (base : Mapping) (off : Nat) (want : BitVec 32)
    {actions : List EpAction} (allows : Allows guard actions) {s : PostRecord}
    (holds : Published actions s) :
    (postRecorder user).wp guard (fun _ => Published actions)
      (pcieRingWaitU32 t base off want false 5000) s := by
  apply wp_mono (pcieRingWaitU32_wp (published_idles allows) (postRecorder_stable _) t base off
    want false 5000 (fun s here => allows s _ here.2 nofun)
    (fun s val s' here read _ => by
      rwa [postRecorder_quiet read (readl_quiet (by decide))])
    (fun s val s' here read _ => by
      rwa [postRecorder_quiet read (readl_quiet (by decide))]) holds)
  intro ret s' result
  rcases result with ⟨-, here⟩ | ⟨-, here⟩
  · exact here
  · exact here

/-- The read of `used` and the write that publishes. -/
theorem publish_record {α : Type} {post : α → PostRecord → Prop} {fn : RingFn} {base : Mapping}
    {value : α} {s : PostRecord} {actions : List EpAction} (allows : Allows guard actions)
    (published : s.actions = actions) (other : fn ≠ .ctxInit) (holds : post value s.publish) :
    (postRecorder user).wp guard post
      (do
        let used ← pcieRingR32 fn base rhUsedOff
        pcieRingW32 fn base rhUsedOff (used + 1)
        pure value) s := by
  refine wp_perform (postRecorder_stable (· = s)) rfl (fun s₁ same => ?_) ?_
  · exact allows s₁ _ (same ▸ published) nofun
  · intro s₁ used s₂ same read
    rw [postRecorder_quiet read (readl_quiet other), same]
    apply pcieRingW32_record allows published
    rw [if_pos rfl]
    exact wp_done (postRecorder_stable (· = s.publish)) rfl fun s' here => by rwa [here]

theorem pcieRingPostData_record (t : Timing) (ring : PcieRingCtx) (bytes : List Byte)
    (csz : BitVec 32) (epAddr : BitVec 64) (size : bytes.length = csz.toNat)
    {actions : List EpAction} (allows : Allows guard actions) {s : PostRecord}
    (holds : Published actions s) :
    (postRecorder user).wp guard
      (fun posted s' => if posted.1 ≠ 0 then Published actions s'
        else Published (actions ++ [.write epAddr bytes]) s')
      (pcieRingPostData t ring bytes csz epAddr) s := by
  apply wp_seq (pcieRingWaitU32_record t ring.base rhAvailOff ring.curAvail allows holds)
  intro ret s₁ here
  split
  · rename_i failed
    refine wp_done (postRecorder_stable _) here fun s' here' => ?_
    rw [if_pos failed]
    exact here'
  · obtain ⟨empty, published⟩ := here
    apply descriptor_record ring.curAvail ring.num _ _ _ _ _ allows published empty
    refine wp_perform (postRecorder_stable (· = _)) rfl (fun s₂ same => ?_) ?_
    · exact allows s₂ _ (same ▸ published) nofun
    · intro s₂ _ s₃ same copied
      subst same
      have there : s₃ = _ := copied
      rw [there]
      refine publish_record allows published (by decide) ?_
      rw [if_neg (by simp)]
      refine ⟨rfl, ?_⟩
      simp only [PostRecord.publish, EpDesc.action, ↓reduceIte, EpDesc.addr_halves, published,
        ← size, List.take_length]

theorem pcieRingPostCmd_record (t : Timing) (ring : PcieRingCtx) (cmd size : BitVec 32)
    (addr : BitVec 64) (other : cmd ≠ ringCmdData) {actions : List EpAction}
    (allows : Allows guard actions) {s : PostRecord} (holds : Published actions s) :
    (postRecorder user).wp guard
      (fun posted s' => if posted.1 ≠ 0 then Published actions s'
        else Published (actions ++ [.command cmd size addr]) s')
      (pcieRingPostCmd t ring cmd size addr) s := by
  apply wp_seq (pcieRingWaitU32_record t ring.base rhAvailOff ring.curAvail allows holds)
  intro ret s₁ here
  split
  · rename_i failed
    refine wp_done (postRecorder_stable _) here fun s' here' => ?_
    rw [if_pos failed]
    exact here'
  · obtain ⟨empty, published⟩ := here
    apply descriptor_record ring.curAvail ring.num _ _ _ _ _ allows published empty
    refine publish_record allows published (by decide) ?_
    rw [if_neg (by simp)]
    refine ⟨rfl, ?_⟩
    simp only [PostRecord.publish, EpDesc.action, other, ↓reduceIte, EpDesc.addr_halves, published]

theorem published_pollReads (base : Mapping) {actions : List EpAction}
    (allows : Allows guard actions) :
    PollReads (postRecorder user) guard base (Published actions) (fun _ => Published actions)
      (fun _ _ => Published actions) (Published actions) where
  usedStable _ := postRecorder_stable _
  numStable _ _ := postRecorder_stable _
  settled := postRecorder_stable _
  usedReady s here := allows s _ here.2 nofun
  readUsed s u s' here read := by rwa [postRecorder_quiet read (readl_quiet (by decide))]
  numReady _ s here := allows s _ here.2 nofun
  readNum u s n s' here read := by rwa [postRecorder_quiet read (readl_quiet (by decide))]
  availReady _ _ s here := allows s _ here.2 nofun
  idle u n s a s' here read _ := by rwa [postRecorder_quiet read (readl_quiet (by decide))]
  busy u n s a s' here read _ := by rwa [postRecorder_quiet read (readl_quiet (by decide))]

theorem pcieRingXferPoll_record (t : Timing) (base : Mapping) (timeoutMs : Nat)
    {actions : List EpAction} (allows : Allows guard actions) {s : PostRecord}
    (holds : Published actions s) :
    (postRecorder user).wp guard (fun _ => Published actions)
      (pcieRingXferPoll t base timeoutMs) s := by
  apply wp_mono (pcieRingXferPoll_wp (published_idles allows) (published_pollReads base allows) t
    timeoutMs holds)
  intro ret s' result
  rcases result with ⟨-, drained⟩ | ⟨-, busy⟩
  · exact drained
  · exact busy

/-- Setting up a ring context publishes nothing. -/
theorem pcieRingCtxInit_record (base : Mapping) (ringMapSize : BitVec 64)
    {actions : List EpAction} (allows : Allows guard actions) {s : PostRecord}
    (holds : Published actions s) :
    (postRecorder user).wp guard (fun _ => Published actions)
      (pcieRingCtxInit base ringMapSize) s := by
  have ready : ∀ s off, Published actions s → guard s (.readl .ctxInit base off) :=
    fun s off here => allows s _ here.2 nofun
  have kept : ∀ s off val s', Published actions s →
      (postRecorder user).answer s (.readl .ctxInit base off) val s' → Published actions s' := by
    intro s off val s' here read
    have same : s' = s := read
    rwa [same]
  refine wp_perform (postRecorder_stable _) holds (fun s' here => ready s' _ here)
    fun s₁ num s₂ here₁ read => ?_
  have here₂ := kept s₁ _ num s₂ here₁ read
  refine wp_perform (postRecorder_stable _) here₂ (fun s' here => ready s' _ here)
    fun s₃ maxBlk s₄ here₃ read' => ?_
  have here₄ := kept s₃ _ maxBlk s₄ here₃ read'
  split
  · exact wp_done (postRecorder_stable _) here₄ fun _ here => here
  · split
    · exact wp_done (postRecorder_stable _) here₄ fun _ here => here
    · refine wp_perform (postRecorder_stable _) here₄ (fun s' here => ready s' _ here)
        fun s₅ avail s₆ here₅ read'' => ?_
      exact wp_done (postRecorder_stable _) (kept s₅ _ avail s₆ here₅ read'') fun _ here => here

end Recorder

theorem postRecorder_obliging (user : BitVec 64 → Byte) (num maxBlk avail : BitVec 32) :
    Obliging (postRecorder user) num maxBlk avail where
  jiffies s _ := ⟨s, rfl⟩
  read s _ _ _ _ _ := ⟨s, rfl⟩
  readNum s _ := ⟨s, rfl⟩
  readMaxBlk s _ := ⟨s, rfl⟩
  readAvail s _ := ⟨s, rfl⟩
  write s _ _ off value :=
    ⟨if off = rhUsedOff then s.publish else { s with words := s.words ++ [value] }, rfl⟩
  block s _ _ _ bytes := ⟨{ s with block := bytes }, rfl⟩
  alloc s := ⟨s, rfl⟩
  copy s src length := ⟨⟨(userBytes user src length).toArray, by simp⟩, s, rfl, by
    rintro _ ⟨⟩
    simp⟩
  master s _ := ⟨s, rfl⟩

end AmbaPci

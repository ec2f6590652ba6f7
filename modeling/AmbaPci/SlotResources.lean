import AmbaPci.HotplugRules
import AmbaPci.InteractionLedger
import AmbaPci.XferRules

set_option autoImplicit false

/- What the driver holds of the kernel, and what each function that works on one entry does to the
holdings: the boot mapping and the proc directory of an entry are its own. -/
namespace AmbaPci

open Interaction Interaction.Prog Interaction.Machine Interaction.Ledger

/-- What the module and its slots hold. A mapping is named by its cookie, a proc directory of a
slot by the index in its name. -/
inductive Resource
  | mutex
  | chrdev
  | deviceClass
  | cdev
  | device
  | procRoot
  | notifier
  | mapping (base : Mapping)
  | procDir (name : Option Nat)
  deriving DecidableEq

/-- A second directory of one name is not to be asked for, and no ring access to be made to an
address that is not mapped. -/
def slotLedger : Ledger Op Op.Reply Resource where
  acquires
    | .pciIomap _ _ _, some base => {.mapping base}
    | .procMkdir name, true => {.procDir (some name)}
    | _, _ => ∅
  releases
    | .pciIounmap _ base => {.mapping base}
    | .procUnlink name => {.procDir name}
    | _ => ∅
  uses
    | .readl _ base _ => {.mapping base}
    | .writel _ base _ _ => {.mapping base}
    | .memcpyToio _ base _ _ => {.mapping base}
    | .procMkdir _ => {.procRoot}
    | .procCreateData name _ => {.procDir (some name)}
    | .procUnlink _ => {.procRoot}
    | _ => ∅
  bars
    | .procMkdir name => {.procDir (some name)}
    | _ => ∅

def mappingOf : Option Mapping → Set Resource
  | none => ∅
  | some base => {.mapping base}

def procDirOf (index : Nat) : Bool → Set Resource
  | false => ∅
  | true => {.procDir (some index)}

/-- What the entry of a slot holds. -/
def Entry.holds (index : Nat) (e : Entry) : Set Resource :=
  mappingOf e.bootMemBase ∪ procDirOf index e.procDir

/-- The holdings are those of the entry and a frame, and the entry knows its directory. -/
structure SlotAccounts (frame : Set Resource) (procRoot : Bool) (index : Nat) (e : Entry)
    (held : Set Resource) : Prop where
  accounts : Accounts frame (e.holds index) held
  named : e.procDir = true → e.procName = some index ∧ procRoot = true

variable {frame held : Set Resource} {procRoot : Bool} {index : Nat} {e e' : Entry}
variable {pdev : PciDev} {base : Mapping}

theorem Entry.mapping_holds (mapped : e.bootMemBase = some base) :
    Resource.mapping base ∈ e.holds index := by
  apply Or.inl
  rw [mapped]
  exact Set.mem_singleton _

theorem Entry.procDir_holds (made : e.procDir = true) :
    Resource.procDir (some index) ∈ e.holds index := by
  apply Or.inr
  rw [made]
  exact Set.mem_singleton _

/-- The proc directories and the mappings, which belong to slots. -/
def Resource.OfSlot : Resource → Prop
  | .mapping _ => True
  | .procDir _ => True
  | _ => False

theorem Entry.holds_ofSlot {r : Resource} (inside : r ∈ e.holds index) : r.OfSlot := by
  rcases inside with mapping | dir
  · cases found : e.bootMemBase with
    | none =>
        rw [found] at mapping
        exact mapping.elim
    | some base =>
        rw [found] at mapping
        rw [Set.mem_singleton_iff.mp mapping]
        trivial
  · cases made : e.procDir with
    | false =>
        rw [made] at dir
        exact dir.elim
    | true =>
        rw [made] at dir
        rw [Set.mem_singleton_iff.mp dir]
        trivial

/-- The entry holds what it held. -/
theorem SlotAccounts.congr (accounts : SlotAccounts frame procRoot index e held)
    (mapping : e'.bootMemBase = e.bootMemBase) (dir : e'.procDir = e.procDir)
    (name : e'.procName = e.procName) : SlotAccounts frame procRoot index e' held where
  accounts := by
    rw [Entry.holds, mapping, dir]
    exact accounts.accounts
  named made := by
    rw [name]
    exact accounts.named (dir ▸ made)

theorem SlotAccounts.mapping (accounts : SlotAccounts frame procRoot index e held)
    (mapped : e.bootMemBase = some base) : {Resource.mapping base} ⊆ held :=
  Set.singleton_subset_iff.mpr
    (accounts.accounts.own_subset (Entry.mapping_holds mapped))

/-- An operation that the ledger says nothing of. -/
theorem unlisted_borrows {op : Op} (uses : slotLedger.uses op = ∅)
    (releases : slotLedger.releases op = ∅) (acquires : ∀ reply, slotLedger.acquires op reply = ∅)
    (bars : slotLedger.bars op = ∅) : slotLedger.Borrows held op where
  used := by
    rw [uses]
    exact Set.empty_subset held
  released := releases
  acquired := acquires
  barred := bars

/-! The ring -/

theorem RingAccess.borrows {desc blk : Nat} {op : Op} (access : RingAccess base desc blk op) :
    slotLedger.Borrows {.mapping base} op := by
  cases op with
  | readl fn target off =>
      rw [access.1]
      exact ⟨subset_rfl, rfl, fun _ => rfl, rfl⟩
  | writel fn target off value =>
      rw [access.1]
      exact ⟨subset_rfl, rfl, fun _ => rfl, rfl⟩
  | memcpyToio fn target off bytes =>
      rw [access.1]
      exact ⟨subset_rfl, rfl, fun _ => rfl, rfl⟩
  | jiffies | usleepRange | spin => exact unlisted_borrows rfl rfl (fun _ => rfl) rfl
  | _ => exact access.elim

theorem pcieRingPostData_base {t : Timing} {ring ring' : PcieRingCtx} {bytes : List ByteMemory.Byte}
    {csz : BitVec 32} {epAddr : BitVec 64} {ret : Int}
    (returned : Returns (fun _ _ => True) (pcieRingPostData t ring bytes csz epAddr) (ret, ring')) :
    ring'.base = ring.base := by
  obtain ⟨waited, -, returned⟩ := (returns_bind_iff _ _ _).mp returned
  split at returned
  · cases (returns_done_iff _ _).mp returned
    rfl
  · simp only [pcieRingW32, pcieRingR32, perform, perform_bind, returns_call_iff] at returned
    obtain ⟨_, -, _, -, _, -, _, -, _, -, _, -, used, -, _, -, returned⟩ := returned
    cases (returns_done_iff _ _).mp returned
    rfl

theorem pcieRingCtxInit_base {ringMapSize : BitVec 64} {ret : Int} {ring : PcieRingCtx}
    (returned : Returns (fun _ _ => True) (pcieRingCtxInit base ringMapSize) (ret, ring))
    (zero : ret = 0) : ring.base = base := by
  obtain ⟨num, -, returned⟩ := (returns_perform_iff _ _ _).mp returned
  obtain ⟨maxBlk, -, returned⟩ := (returns_perform_iff _ _ _).mp returned
  split at returned
  · cases (returns_done_iff _ _).mp returned
    exact absurd zero (by decide)
  · split at returned
    · cases (returns_done_iff _ _).mp returned
      exact absurd zero (by decide)
    · obtain ⟨avail, -, returned⟩ := (returns_perform_iff _ _ _).mp returned
      cases (returns_done_iff _ _).mp returned
      rfl

theorem pcieRingFillChunk_borrows (src dataLen epPos : BitVec 64) (csz : BitVec 32) :
    (pcieRingFillChunk src dataLen epPos csz).Calls (slotLedger.Borrows held) := by
  unfold pcieRingFillChunk
  split
  · trivial
  · apply Calls.perform (unlisted_borrows rfl rfl (fun _ => rfl) rfl); intro copied
    cases copied with
    | none => trivial
    | some bytes => trivial

/-- The chunk loop stays in the mapping of its context; induction on the passes. -/
theorem pcieRingXferLoop_borrows (t : Timing) (src dataLen loadAddr total : BitVec 64)
    (passes : Nat) (ring : PcieRingCtx) (epPos : BitVec 64) :
    (pcieRingXferLoop t src dataLen loadAddr total passes ring epPos).Calls
      (slotLedger.Borrows {.mapping ring.base}) := by
  induction passes generalizing ring epPos with
  | zero =>
      have silent : slotLedger.Borrows {.mapping ring.base} .spin :=
        unlisted_borrows rfl rfl (fun _ => rfl) rfl
      exact ⟨silent, fun impossible => nomatch impossible⟩
  | succ passes ih =>
      unfold pcieRingXferLoop
      split
      · apply Calls.bind (pcieRingFillChunk_borrows _ dataLen epPos _); intro filled
        cases filled with
        | none => trivial
        | some chunk =>
            have post := pcieRingPostData_accesses t ring chunk (pcieRingChunkSize total epPos)
              (loadAddr + epPos)
            apply Calls.seq (post.mono fun _ => RingAccess.borrows)
            rintro ⟨ret, ring'⟩ returned
            dsimp only
            split
            · trivial
            · rw [← pcieRingPostData_base returned]
              exact ih ring' _
      · trivial

theorem pcieRingXferLoop_base {t : Timing} {src dataLen loadAddr total : BitVec 64}
    {passes : Nat} {ring ring' : PcieRingCtx} {epPos : BitVec 64} {ret : Int}
    (returned : Returns (fun _ _ => True)
      (pcieRingXferLoop t src dataLen loadAddr total passes ring epPos) (ret, ring')) :
    ring'.base = ring.base := by
  induction passes generalizing ring epPos with
  | zero =>
      obtain ⟨impossible, -, -⟩ := (returns_call_iff _ _ _).mp returned
      exact nomatch impossible
  | succ passes ih =>
      unfold pcieRingXferLoop at returned
      split at returned
      · obtain ⟨filled, -, returned⟩ := (returns_bind_iff _ _ _).mp returned
        cases filled with
        | none =>
            cases (returns_done_iff _ _).mp returned
            rfl
        | some chunk =>
            obtain ⟨⟨posted, ring₁⟩, first, returned⟩ := (returns_bind_iff _ _ _).mp returned
            have same := pcieRingPostData_base first
            dsimp only at returned
            split at returned
            · cases (returns_done_iff _ _).mp returned
              exact same
            · exact (ih returned).trans same
      · cases (returns_done_iff _ _).mp returned
        rfl

/-- An image is sent through the mapping it is given. -/
theorem pcieRingXferUser_borrows (t : Timing) (base : Mapping) (ringMapSize userBase : BitVec 64)
    (img : FwImageDesc) : (pcieRingXferUser t base ringMapSize userBase img).Calls
      (slotLedger.Borrows {.mapping base}) := by
  apply Calls.perform (unlisted_borrows rfl rfl (fun _ => rfl) rfl); intro chunk
  split
  · trivial
  · have init : (pcieRingCtxInit base ringMapSize).Calls (RingAccess base rhDesc0Off rhDesc0Off) :=
      pcieRingCtxInit_accesses ringMapSize
    apply Calls.seq (init.mono fun _ => RingAccess.borrows)
    rintro ⟨ret, ring⟩ returned
    dsimp only
    split
    · trivial
    · rename_i zero
      have start := pcieRingCtxInit_base returned (Decidable.not_not.mp zero)
      have loop := pcieRingXferLoop_borrows t (userBase + img.offset) img.length
        (pcieFwLoadAddr img.type) (pcieRingXferTotal img.length)
        (pcieRingPasses (pcieRingXferTotal img.length)) ring 0
      rw [start] at loop
      apply Calls.seq loop
      rintro ⟨ret, ring'⟩ sent
      have finish : ring'.base = base := (pcieRingXferLoop_base sent).trans start
      dsimp only
      split
      · trivial
      · have cmd := pcieRingPostCmd_accesses t ring' (pcieRingTail img.type img.length).1
          (pcieRingTail img.type img.length).2 (pcieFwLoadAddr img.type) rhDesc0Off
        rw [finish] at cmd
        have poll : (pcieRingXferPoll t base 5000).Calls (RingAccess base rhDesc0Off rhDesc0Off) :=
          pcieRingXferPoll_accesses t 5000
        apply Calls.bind (cmd.mono fun _ => RingAccess.borrows); intro posted
        split
        · trivial
        · exact poll.mono fun _ => RingAccess.borrows

theorem xferImages_borrows (t : Timing) (base : Mapping) (ringMapSize : BitVec 64) (req : FwXfer)
    (types : List (BitVec 32)) : (xferImages t base ringMapSize req types).Calls
      (slotLedger.Borrows {.mapping base}) := by
  induction types with
  | nil => trivial
  | cons type rest ih =>
      unfold xferImages
      split
      · have silent : slotLedger.Borrows {.mapping base} .oops :=
          unlisted_borrows rfl rfl (fun _ => rfl) rfl
        exact ⟨silent, fun impossible => nomatch impossible⟩
      · apply Calls.bind (pcieRingXferUser_borrows t base ringMapSize req.fwUserPtr _); intro ret
        split
        · trivial
        · exact ih

theorem xferToEp_borrows (t : Timing) (base : Mapping) (ringMapSize : BitVec 64) (req : FwXfer) :
    (xferToEp t base ringMapSize req).Calls (slotLedger.Borrows {.mapping base}) := by
  have ready : (pcieRingWaitEpReady t base).Calls (RingAccess base rhDesc0Off rhDesc0Off) :=
    pcieRingWaitEpReady_accesses t
  apply Calls.bind (ready.mono fun _ => RingAccess.borrows); intro ret
  split
  · trivial
  · exact xferImages_borrows t base ringMapSize req pcieFwXferOrder

/-! The boot BAR -/

theorem pcieEnableMemIoResource_borrows (pdev : PciDev) :
    (pcieEnableMemIoResource pdev).Calls (slotLedger.Borrows held) := by
  have config : ∀ value, slotLedger.Borrows held (.pciWriteConfigByte pdev 4 value) := fun _ =>
    unlisted_borrows rfl rfl (fun _ => rfl) rfl
  have sleep : slotLedger.Borrows held (.msleep 100) :=
    unlisted_borrows rfl rfl (fun _ => rfl) rfl
  apply Calls.perform (config 0x06); intro err
  split
  · trivial
  · apply Calls.perform sleep; intro _
    apply Calls.perform (config 0x07); intro err
    split
    · trivial
    · apply Calls.perform sleep; intro _
      apply Calls.perform (config 0x06); intro err
      split
      · trivial
      · exact Calls.perform sleep fun _ => trivial

/-- An attempt to map leaves the entry accounted for, and unmapped when it fails. -/
def Mapped (frame : Set Resource) (procRoot : Bool) (index : Nat) (result : Int × Entry)
    (held : Set Resource) : Prop :=
  SlotAccounts frame procRoot index result.2 held ∧
    (result.1 ≠ 0 → result.2.bootMemBase = none)

theorem pcieMapFoundBar_accounts (pdev : PciDev)
    (accounts : SlotAccounts frame procRoot index e held) (unmapped : e.bootMemBase = none) :
    slotLedger.Ensures (Mapped frame procRoot index) (pcieMapFoundBar pdev e) held := by
  apply ensures_borrow (unlisted_borrows rfl rfl (fun _ => rfl) rfl); intro res
  split
  · exact ensures_done ⟨accounts, fun _ => unmapped⟩
  · apply ensures_calls_seq (pcieEnableMemIoResource_borrows pdev)
    intro ret _
    split
    · exact ensures_done ⟨accounts, fun _ => unmapped⟩
    · apply ensures_perform ⟨Set.empty_subset _, Set.empty_subset _, Set.empty_disjoint _⟩
      intro base free
      cases base with
      | none =>
          have same : slotLedger.after held (.pciIomap pdev e.bootBar e.bootLen) none = held := by
            simp only [Ledger.after, slotLedger, Set.sdiff_empty, Set.union_empty]
          rw [same]
          exact ensures_done ⟨accounts.congr unmapped.symm rfl rfl, fun _ => rfl⟩
      | some base =>
          have mapped := accounts.accounts.acquire free
          have owned : e.holds index ∪ {.mapping base} =
              Entry.holds index { e with bootMemBase := some base } := by
            rw [Entry.holds, unmapped, Set.union_comm]
            simp only [Entry.holds, mappingOf, Set.empty_union]
          have more : slotLedger.after held (.pciIomap pdev e.bootBar e.bootLen) (some base) =
              held ∪ {.mapping base} := by
            simp only [Ledger.after, slotLedger, Set.sdiff_empty]
          rw [more]
          apply ensures_done
          refine ⟨⟨?_, accounts.named⟩, fun failed => absurd rfl failed⟩
          rw [← owned]
          exact mapped

theorem pcieMapBootBar_accounts (pdev : PciDev)
    (accounts : SlotAccounts frame procRoot index e held) (unmapped : e.bootMemBase = none) :
    slotLedger.Ensures (Mapped frame procRoot index) (pcieMapBootBar pdev e) held := by
  unfold pcieMapBootBar
  split
  · split
    · exact ensures_done ⟨accounts, fun _ => unmapped⟩
    · exact pcieMapFoundBar_accounts pdev (accounts.congr rfl rfl rfl) unmapped
  · exact pcieMapFoundBar_accounts pdev accounts unmapped

theorem pcieBootBarMapRetry_accounts (pdev : PciDev) (attempts : Nat) (last : Int)
    (accounts : SlotAccounts frame procRoot index e held) (unmapped : e.bootMemBase = none) :
    slotLedger.Ensures (Mapped frame procRoot index) (pcieBootBarMapRetry pdev attempts last e)
      held := by
  induction attempts generalizing last e held with
  | zero => exact ensures_done ⟨accounts, fun _ => unmapped⟩
  | succ attempts ih =>
      apply ensures_seq (pcieMapBootBar_accounts pdev accounts unmapped)
      rintro ⟨ret, e₁⟩ held₁ ended
      dsimp only
      split
      · exact ensures_done ended
      · rename_i failed
        split
        · exact ensures_done ended
        · apply ensures_borrow (unlisted_borrows rfl rfl (fun _ => rfl) rfl); intro _
          exact ih ret ended.1 (ended.2 failed)

theorem pcieBootBarEnsureMapped_accounts (pdev : PciDev)
    (accounts : SlotAccounts frame procRoot index e held) :
    slotLedger.Ensures (fun result held' => SlotAccounts frame procRoot index result.2 held')
      (pcieBootBarEnsureMapped pdev e) held := by
  unfold pcieBootBarEnsureMapped
  split
  · exact ensures_done accounts
  · rename_i absent
    have unmapped : e.bootMemBase = none := by simpa using absent
    apply ensures_seq (pcieBootBarMapRetry_accounts pdev pcieBootBarMapRetryMax 0 accounts unmapped)
    rintro ⟨ret, e₁⟩ held₁ ended
    dsimp only
    split
    · exact ensures_done ended.1
    · exact ensures_done ended.1

theorem pcieBootBarUnmap_accounts (pdev : PciDev)
    (accounts : SlotAccounts frame procRoot index e held) :
    slotLedger.Ensures (fun e' held' => SlotAccounts frame procRoot index e' held')
      (pcieBootBarUnmap pdev e) held := by
  unfold pcieBootBarUnmap
  split
  · exact ensures_done accounts
  · rename_i base mapped
    have mine := accounts.mapping mapped
    apply ensures_perform ⟨Set.empty_subset _, mine, Set.empty_disjoint _⟩
    intro _ _
    have own : {Resource.mapping base} ⊆ e.holds index :=
      Set.singleton_subset_iff.mpr (Entry.mapping_holds mapped)
    have kept : e.holds index \ {.mapping base} =
        Entry.holds index { e with bootMemBase := none } := by
      simp only [Entry.holds, mapped, mappingOf, Set.union_sdiff_distrib, sdiff_self,
        Set.bot_eq_empty, Set.empty_union]
      cases e.procDir with
      | false => simp only [procDirOf, Set.empty_sdiff]
      | true =>
          apply sdiff_eq_left.mpr
          simp only [procDirOf, Set.disjoint_singleton, ne_eq, reduceCtorEq, not_false_eq_true]
    have fewer : slotLedger.after held (.pciIounmap pdev base) () = held \ {.mapping base} := by
      simp only [Ledger.after, slotLedger, Set.union_empty]
    rw [fewer]
    apply ensures_done
    refine ⟨?_, accounts.named⟩
    rw [← kept]
    exact accounts.accounts.release own

theorem pcieEntryDetachPdev_accounts (accounts : SlotAccounts frame procRoot index e held) :
    slotLedger.Ensures (fun e' held' => SlotAccounts frame procRoot index e' held')
      (pcieEntryDetachPdev e) held := by
  unfold pcieEntryDetachPdev
  split
  · exact ensures_done accounts
  · apply ensures_seq (pcieBootBarUnmap_accounts _ accounts)
    intro e₁ held₁ unmapped
    apply ensures_borrow (unlisted_borrows rfl rfl (fun _ => rfl) rfl); intro _
    exact ensures_done (unmapped.congr rfl rfl rfl)

theorem pcieDevRefreshBoardInfoLocked_accounts
    (accounts : SlotAccounts frame procRoot index e held) :
    slotLedger.Ensures (fun result held' => SlotAccounts frame procRoot index result.2 held')
      (pcieDevRefreshBoardInfoLocked e) held := by
  unfold pcieDevRefreshBoardInfoLocked
  split
  · exact ensures_done accounts
  · split
    · exact ensures_done accounts
    · rename_i pdev _
      have mapping : slotLedger.Ensures
          (fun result held' => SlotAccounts frame procRoot index result.2 held')
          (refreshBootMapping pdev e) held := by
        unfold refreshBootMapping
        split
        · exact pcieBootBarEnsureMapped_accounts pdev accounts
        · exact ensures_done accounts
      apply ensures_seq mapping
      rintro ⟨ret, e₁⟩ held₁ ended
      dsimp only at ended ⊢
      split
      · exact ensures_done ended
      · split
        · rename_i base _ mapped
          have reads : (pcieRingReadBoardInfo base).Calls (RingAccess base rhDesc0Off rhDesc0Off) :=
            pcieRingReadBoardInfo_accesses
          apply ensures_calls_seq (reads.mono fun _ access =>
            access.borrows.mono (ended.mapping mapped))
          intro bd _
          exact ensures_done (ended.congr rfl rfl rfl)
        · exact ensures_done ended

theorem pcieQueryDevInfoLocked_accounts (slot : Nat)
    (accounts : SlotAccounts frame procRoot index e held) :
    slotLedger.Ensures (fun result held' => SlotAccounts frame procRoot index result.2 held')
      (pcieQueryDevInfoLocked e slot) held := by
  unfold pcieQueryDevInfoLocked
  dsimp only
  split
  · exact ensures_done accounts
  · apply ensures_seq (pcieDevRefreshBoardInfoLocked_accounts accounts)
    intro result held₁ ended
    exact ensures_done ended

/-- The ring is only used through the mapping the entry holds. -/
theorem pcieXferFirmwareLocked_accounts (t : Timing) (req : FwXfer)
    (accounts : SlotAccounts frame procRoot index e held) :
    slotLedger.Ensures (fun result held' => SlotAccounts frame procRoot index result.2 held')
      (pcieXferFirmwareLocked t req e) held := by
  unfold pcieXferFirmwareLocked
  split
  · exact ensures_done accounts
  · split
    · exact ensures_done accounts
    · apply ensures_seq (pcieDevRefreshBoardInfoLocked_accounts accounts)
      rintro ⟨ret, e₁⟩ held₁ ended
      dsimp only at ended ⊢
      split
      · exact ensures_done ended
      · split
        · rename_i pdev base _ mapped
          apply ensures_borrow (unlisted_borrows rfl rfl (fun _ => rfl) rfl); intro _
          apply ensures_calls_seq ((xferToEp_borrows t base e₁.bootLen req).mono fun _ within =>
            within.mono (ended.mapping mapped))
          intro sent _
          split
          · exact ensures_done ended
          · exact ensures_done (ended.congr rfl rfl rfl)
        · apply (ensures_call_iff _ _).mpr
          refine ⟨⟨Set.empty_subset _, Set.empty_subset _, Set.empty_disjoint _⟩, ?_⟩
          intro impossible
          exact nomatch impossible

/-! The proc nodes -/

theorem createProcEntries_borrows (name : Nat) (nodes : List ProcNode)
    (made : Resource.procDir (some name) ∈ held) :
    (createProcEntries name nodes).Calls (slotLedger.Borrows held) := by
  induction nodes with
  | nil => trivial
  | cons node rest ih =>
      have create : slotLedger.Borrows held (.procCreateData name node) :=
        ⟨Set.singleton_subset_iff.mpr made, rfl, fun _ => rfl, rfl⟩
      apply Calls.perform create; intro created
      split
      · trivial
      · exact ih

/-- A directory of the entry is unlinked, once and under its own name. -/
theorem removeProcSubtree_accounts (root : Resource.procRoot ∈ frame)
    (accounts : SlotAccounts frame procRoot index e held) (made : e.procDir = true) :
    slotLedger.Ensures (fun _ held' =>
      SlotAccounts frame procRoot index { e with procDir := false, procName := none } held')
      (removeProcSubtree e.procName) held := by
  have own : {Resource.procDir (some index)} ⊆ e.holds index :=
    Set.singleton_subset_iff.mpr (Entry.procDir_holds made)
  rw [(accounts.named made).1]
  apply ensures_perform
  · exact ⟨Set.singleton_subset_iff.mpr (accounts.accounts.frame_subset root),
      own.trans accounts.accounts.own_subset, Set.empty_disjoint _⟩
  · intro _ _
    have kept : e.holds index \ {.procDir (some index)} =
        Entry.holds index { e with procDir := false, procName := none } := by
      simp only [Entry.holds, made, procDirOf, Set.union_sdiff_distrib, sdiff_self,
        Set.bot_eq_empty, Set.union_empty]
      cases e.bootMemBase with
      | none => simp only [mappingOf, Set.empty_sdiff]
      | some base =>
          apply sdiff_eq_left.mpr
          simp only [mappingOf, Set.disjoint_singleton, ne_eq, reduceCtorEq, not_false_eq_true]
    have fewer : slotLedger.after held (.procUnlink (some index)) () =
        held \ {.procDir (some index)} := by
      simp only [Ledger.after, slotLedger, Set.union_empty]
    rw [fewer]
    apply ensures_borrow (unlisted_borrows rfl rfl (fun _ => rfl) rfl); intro _
    apply ensures_done
    refine ⟨?_, fun impossible => by cases impossible⟩
    rw [← kept]
    exact accounts.accounts.release own

theorem pcieCreateProcNodes_accounts (root : procRoot = true → Resource.procRoot ∈ frame)
    (absent : Resource.procDir (some index) ∉ frame) (bare : e.procDir = false)
    (accounts : SlotAccounts frame procRoot index e held) :
    slotLedger.Ensures (fun result held' => SlotAccounts frame procRoot index result.2 held')
      (pcieCreateProcNodes procRoot e index) held := by
  unfold pcieCreateProcNodes
  split
  · exact ensures_done accounts
  · rename_i present
    have present : procRoot = true := by simpa using present
    have unheld : Resource.procDir (some index) ∉ held := by
      rw [accounts.accounts.whole, Entry.holds, bare]
      rintro (shared | mapping | none)
      · exact absent shared
      · cases found : e.bootMemBase with
        | none =>
            rw [found] at mapping
            exact mapping
        | some base =>
            rw [found] at mapping
            cases Set.mem_singleton_iff.mp mapping
      · exact none
    apply ensures_perform
    · exact ⟨Set.singleton_subset_iff.mpr (accounts.accounts.frame_subset (root present)),
        Set.empty_subset _, Set.disjoint_singleton_left.mpr unheld⟩
    · intro made free
      cases made with
      | false =>
          have same : slotLedger.after held (.procMkdir index) false = held := by
            simp only [Ledger.after, slotLedger, Set.sdiff_empty, Set.union_empty]
          rw [same]
          apply ensures_done
          refine ⟨?_, fun impossible => by cases impossible⟩
          have kept : Entry.holds index { e with procName := some index, procDir := false } =
              e.holds index := by
            simp only [Entry.holds, bare]
          rw [kept]
          exact accounts.accounts
      | true =>
          have more : slotLedger.after held (.procMkdir index) true =
              held ∪ {.procDir (some index)} := by
            simp only [Ledger.after, slotLedger, Set.sdiff_empty]
          have owned : e.holds index ∪ {.procDir (some index)} =
              Entry.holds index { e with procName := some index, procDir := true } := by
            simp only [Entry.holds, bare, procDirOf, Set.union_empty]
          have made : SlotAccounts frame procRoot index
              { e with procName := some index, procDir := true }
              (held ∪ {.procDir (some index)}) := by
            refine ⟨?_, fun _ => ⟨rfl, present⟩⟩
            rw [← owned]
            exact accounts.accounts.acquire free
          rw [more]
          apply ensures_calls_seq (createProcEntries_borrows index pcieProcNodes
            (Or.inr (Set.mem_singleton _)))
          intro created _
          dsimp only
          split
          · exact ensures_done made
          · apply ensures_seq (removeProcSubtree_accounts (root present) made rfl)
            intro _ held₁ removed
            exact ensures_done removed

theorem releaseProcNodes_accounts (root : procRoot = true → Resource.procRoot ∈ frame)
    (accounts : SlotAccounts frame procRoot index e held) :
    slotLedger.Ensures (fun e' held' => SlotAccounts frame procRoot index e' held' ∧
      e'.bootMemBase = e.bootMemBase) (releaseProcNodes e) held := by
  unfold releaseProcNodes
  split
  · rename_i made
    apply ensures_seq (removeProcSubtree_accounts (root (accounts.named made).2) accounts made)
    intro _ held₁ removed
    exact ensures_done ⟨removed, rfl⟩
  · exact ensures_done ⟨accounts, rfl⟩

theorem detached_unmapped (tracked : e.bootMemBase ≠ none → e.pdev ≠ none) :
    (detached e).bootMemBase = none := by
  unfold detached
  split
  · rename_i bare
    by_contra mapped
    exact tracked mapped (by simpa using bare)
  · rfl

theorem pcieReleaseDev_accounts (root : procRoot = true → Resource.procRoot ∈ frame)
    (tracked : e.bootMemBase ≠ none → e.pdev ≠ none)
    (accounts : SlotAccounts frame procRoot index e held) :
    slotLedger.Ensures (fun e' held' => SlotAccounts frame procRoot index e' held')
      (pcieReleaseDev e) held := by
  unfold pcieReleaseDev
  split
  · exact ensures_done accounts
  · apply ensures_seq (wp_returns (pcieEntryDetachPdev_accounts accounts))
    rintro e₁ held₁ ⟨loose, returned⟩
    have unmapped : e₁.bootMemBase = none := by
      rw [pcieEntryDetachPdev_returns returned]
      exact detached_unmapped tracked
    have cancelled : SlotAccounts frame procRoot index
        { e₁ with bootTimeoutWork := cancelDelayedWork e₁.bootTimeoutWork } held₁ :=
      loose.congr rfl rfl rfl
    apply ensures_seq (releaseProcNodes_accounts root cancelled)
    rintro e₂ held₂ ⟨cleared, same⟩
    exact ensures_done (cleared.congr (same.trans unmapped).symm rfl rfl)

end AmbaPci

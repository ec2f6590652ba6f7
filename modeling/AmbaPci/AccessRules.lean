import AmbaPci.AccessRuns

set_option autoImplicit false

/- What the accesses of the locked sections are: which of them commute with the moves of timers and
of the workqueue, and what values the sections store. -/
namespace AmbaPci

open Interaction Interaction.Prog

/-! Commutation -/

/-- Every access but the last one of a section. -/
def AccessOp.Early : AccessOp → Prop
  | .scheduleWork _ => False
  | .workLeaves _ => False
  | _ => True

theorem AccessOp.Early.stays {op : AccessOp} (early : op.Early) : op.Stays := by
  cases op with
  | workLeaves => exact early
  | _ => trivial

theorem Entry.store_work (e : Entry) (field : EntryWrite) :
    (e.store field).bootTimeoutWork = e.bootTimeoutWork := by
  cases field with
  | _ => rfl

/-- A timer or the workqueue changes the delayed work of one slot. -/
theorem TimerMove.changes {s s' : Platform} (moved : TimerMove s s') :
    ∃ index work, (s.devs index).bootTimeoutWork.pending ≠ .idle ∧
      s' = s.setDev index ((s.devs index).withWork work) ∧
      ∀ s₀ : Platform, (s₀.devs index).bootTimeoutWork = (s.devs index).bootTimeoutWork →
        TimerMove s₀ (s₀.setDev index ((s₀.devs index).withWork work)) := by
  cases moved with
  | @timerExpires index armed =>
      refine ⟨index, { (s.devs index).bootTimeoutWork with pending := .queued },
        by rw [armed]; decide, rfl, fun s₀ same => ?_⟩
      rw [← same]
      exact .timerExpires (by rw [same]; exact armed)
  | @workStarts index queued returned =>
      refine ⟨index, { pending := .idle, running := true }, by rw [queued]; decide, rfl,
        fun s₀ same => ?_⟩
      exact .workStarts (by rw [same]; exact queued) (by rw [same]; exact returned)

theorem Platform.setDev_comm (s : Platform) {index other : Fin ambaPciDevMax}
    (apart : index ≠ other) (e e' : Entry) :
    (s.setDev index e).setDev other e' = (s.setDev other e').setDev index e := by
  simp only [Platform.setDev, Platform.mk.injEq, and_self, and_true]
  funext slot
  by_cases first : slot = other
  · subst first
    rw [if_pos rfl, if_neg (Ne.symm apart), if_pos rfl]
  · rw [if_neg first, if_neg first]

theorem Entry.store_withWork (e : Entry) (field : EntryWrite) (work : DelayedWork) :
    (e.store field).withWork work = (e.withWork work).store field := by
  cases field with
  | _ => rfl

/-- A move after a change of one entry that leaves its delayed work alone could come before it. -/
theorem TimerMove.before_set {s s' : Platform} {index : Fin ambaPciDevMax}
    (change : Entry → Entry) (kept : ∀ e, (change e).bootTimeoutWork = e.bootTimeoutWork)
    (commutes : ∀ e work, (change e).withWork work = change (e.withWork work))
    (moved : TimerMove (s.setDev index (change (s.devs index))) s') :
    ∃ s₀, TimerMove s s₀ ∧ s' = s₀.setDev index (change (s₀.devs index)) := by
  obtain ⟨slot, work, -, rfl, again⟩ := moved.changes
  by_cases same : slot = index
  · subst same
    refine ⟨_, again s (by rw [Platform.setDev_same, kept]), ?_⟩
    rw [Platform.setDev_same, Platform.setDev_setDev, Platform.setDev_same, Platform.setDev_setDev,
      commutes]
  · refine ⟨_, again s (by rw [Platform.setDev_other _ _ _ _ same]), ?_⟩
    rw [Platform.setDev_other _ _ _ _ same, Platform.setDev_other _ _ _ _ (Ne.symm same),
      Platform.setDev_comm s (Ne.symm same)]

theorem TimerMove.before_cancel {s s' : Platform} {index : Fin ambaPciDevMax}
    (moved : TimerMove (s.setDev index ((s.devs index).withWork
      (cancelDelayedWork (s.devs index).bootTimeoutWork))) s') :
    ∃ s₀, TimerMove s s₀ ∧ s' = s₀.setDev index ((s₀.devs index).withWork
      (cancelDelayedWork (s₀.devs index).bootTimeoutWork)) := by
  obtain ⟨slot, work, pending, rfl, again⟩ := moved.changes
  by_cases same : slot = index
  · -- Nothing is pending there after the cancel.
    subst same
    rw [Platform.setDev_same] at pending
    exact absurd rfl pending
  · refine ⟨_, again s (by rw [Platform.setDev_other _ _ _ _ same]), ?_⟩
    rw [Platform.setDev_other _ _ _ _ same, Platform.setDev_other _ _ _ _ (Ne.symm same),
      Platform.setDev_comm s (Ne.symm same)]

/-- What the moves leave alone. -/
theorem TimerMove.seen {s s' : Platform} (moved : TimerMove s s') :
    (∀ index, (s'.devs index).seen = (s.devs index).seen) ∧ s'.nextDevId = s.nextDevId ∧
      s'.procRoot = s.procRoot := by
  obtain ⟨slot, work, -, rfl, -⟩ := moved.changes
  refine ⟨fun index => ?_, rfl, rfl⟩
  by_cases same : index = slot
  · subst same
    rw [Platform.setDev_same]
    rfl
  · rw [Platform.setDev_other _ _ _ _ same]

theorem TimerMove.nextDevId {s s' : Platform} (id : BitVec 32)
    (moved : TimerMove { s with nextDevId := id } s') :
    ∃ s₀, TimerMove s s₀ ∧ s' = { s₀ with nextDevId := id } := by
  obtain ⟨slot, work, -, rfl, again⟩ := moved.changes
  exact ⟨_, again s rfl, rfl⟩

theorem early_commutes {op : AccessOp} (early : op.Early) : accessMachine.Early op := by
  intro s reply s₁ s₂ answered moved
  cases op with
  | read index =>
      obtain ⟨same, kept⟩ := answered
      subst kept
      exact ⟨s₂, .single moved, by rw [same, (TimerMove.seen moved).1], rfl⟩
  | write index field =>
      have stored : s₁ = s.setDev index ((s.devs index).store field) := answered
      subst stored
      obtain ⟨s₀, before, after⟩ := TimerMove.before_set (fun e => e.store field)
        (fun e => e.store_work field) (fun e work => e.store_withWork field work) moved
      exact ⟨s₀, .single before, after⟩
  | cancelWork index =>
      have cancelled : s₁ = s.setDev index ((s.devs index).withWork
        (cancelDelayedWork (s.devs index).bootTimeoutWork)) := answered
      subst cancelled
      obtain ⟨s₀, before, after⟩ := TimerMove.before_cancel moved
      exact ⟨s₀, .single before, after⟩
  | scheduleWork index => exact early.elim
  | workLeaves index => exact early.elim
  | nextDevId =>
      obtain ⟨same, kept⟩ := answered
      subst kept
      exact ⟨s₂, .single moved, by rw [same, (TimerMove.seen moved).2.1], rfl⟩
  | setNextDevId id =>
      have set : s₁ = { s with nextDevId := id } := answered
      subst set
      obtain ⟨s₀, before, after⟩ := TimerMove.nextDevId id moved
      exact ⟨s₀, .single before, after⟩
  | procRoot =>
      obtain ⟨same, kept⟩ := answered
      subst kept
      exact ⟨s₂, .single moved, by rw [same, (TimerMove.seen moved).2.2], rfl⟩
  | kernel op =>
      have kept : s₁ = s := answered
      subst kept
      exact ⟨s₂, .single moved, rfl⟩

/-! What the sections store -/

/-- Both strings of the board info end inside their fields. -/
def BoardInfo.Terminated (info : BoardInfo) : Prop :=
  info.dramType[7] = 0 ∧ info.date[31] = 0

theorem BoardInfo.ofWords_terminated (words : List (BitVec 32)) :
    (BoardInfo.ofWords words).Terminated := by
  constructor
  · simp [BoardInfo.ofWords]
  · simp [BoardInfo.ofWords]

theorem BoardInfo.default_terminated : BoardInfo.Terminated {} := ⟨rfl, rfl⟩

/-- What a section may store in a field of a slot at any point. An entry is marked in use only
where its slot has just been stored. -/
def EntryWrite.Proper (index : Fin ambaPciDevMax) : EntryWrite → Prop
  | .pdev (some card) => card.bus = (pciePhysicalSlots index).bus
  | .phySlot slot => slot = pciePhysicalSlots index
  | .boardInfo info => info.Terminated
  | .inUse used => used = false
  | _ => True

def AccessOp.Proper : AccessOp → Prop
  | .write index field => field.Proper index
  | .scheduleWork _ => False
  | .workLeaves _ => False
  | _ => True

theorem AccessOp.Proper.early {op : AccessOp} (proper : op.Proper) : op.Early := by
  cases op with
  | scheduleWork | workLeaves => exact proper.elim
  | _ => trivial

namespace Access

variable {α β : Type} {index : Fin ambaPciDevMax}

theorem onHost_proper (program : Host α) : (onHost program).Calls AccessOp.Proper := by
  unfold onHost
  induction program with
  | done value => trivial
  | call op next ih => exact ⟨trivial, ih⟩

theorem write_proper {field : EntryWrite} {next : Unit → Access β} (proper : field.Proper index)
    (after : ∀ reply, (next reply).Calls AccessOp.Proper) :
    (write index field >>= next).Calls AccessOp.Proper := ⟨proper, after⟩

theorem withPdev_proper {next : PciDev → Access β}
    (after : ∀ pdev, (next pdev).Calls AccessOp.Proper) :
    (withPdev index next).Calls AccessOp.Proper := by
  apply Calls.perform trivial; intro e
  split
  · exact onHost_proper _
  · exact after _

theorem pcieMapFoundBar_proper : (pcieMapFoundBar index).Calls AccessOp.Proper := by
  apply withPdev_proper; intro pdev
  apply Calls.perform trivial; intro e
  apply Calls.perform trivial; intro res
  split
  · trivial
  · apply Calls.bind (onHost_proper _); intro ret
    split
    · trivial
    · apply Calls.perform trivial; intro e
      apply Calls.perform trivial; intro base
      apply Calls.perform trivial; intro _
      split
      · trivial
      · trivial

theorem pcieMapBootBar_proper : (pcieMapBootBar index).Calls AccessOp.Proper := by
  apply Calls.perform trivial; intro e
  split
  · apply withPdev_proper; intro pdev
    apply Calls.bind
    · unfold pcieBootBarFind
      split
      · trivial
      · apply Calls.perform trivial; intro _
        exact Calls.perform trivial fun _ => trivial
    · intro ret
      split
      · trivial
      · exact pcieMapFoundBar_proper
  · exact pcieMapFoundBar_proper

theorem pcieBootBarMapRetry_proper (attempts : Nat) (ret : Int) :
    (pcieBootBarMapRetry index attempts ret).Calls AccessOp.Proper := by
  induction attempts generalizing ret with
  | zero => trivial
  | succ attempts ih =>
      apply Calls.bind pcieMapBootBar_proper; intro ret
      split
      · trivial
      · split
        · trivial
        · exact Calls.perform trivial fun _ => ih ret

theorem refreshBootMapping_proper : (refreshBootMapping index).Calls AccessOp.Proper := by
  apply Calls.perform trivial; intro e
  split
  · apply Calls.perform trivial; intro e
    split
    · trivial
    · apply Calls.bind (pcieBootBarMapRetry_proper _ _); intro ret
      split
      · trivial
      · trivial
  · trivial

/-- The board info comes from the card, cut by the host. -/
theorem readBoardInfo_proper {base : Mapping} {next : BoardInfo → Access β}
    (after : ∀ info, info.Terminated → (next info).Calls AccessOp.Proper) :
    (onHost (pcieRingReadBoardInfo base) >>= next).Calls AccessOp.Proper := by
  unfold pcieRingReadBoardInfo onHost
  rw [Prog.interp_bind, Prog.bind_assoc]
  apply Calls.bind (onHost_proper (pcieRingReadWords base 0 14)); intro words
  exact after _ (BoardInfo.ofWords_terminated words)

theorem pcieDevRefreshBoardInfoLocked_proper :
    (pcieDevRefreshBoardInfoLocked index).Calls AccessOp.Proper := by
  apply Calls.perform trivial; intro e
  split
  · trivial
  · apply Calls.perform trivial; intro e
    split
    · trivial
    · apply Calls.bind refreshBootMapping_proper; intro ret
      split
      · trivial
      · apply Calls.perform trivial; intro e
        split
        · apply readBoardInfo_proper; intro info terminated
          refine write_proper ?_ fun _ => ?_
          · exact terminated
          · exact Calls.perform trivial fun _ => trivial
        · trivial

theorem pcieQueryDevInfoLocked_proper (slot : Nat) :
    (pcieQueryDevInfoLocked index slot).Calls AccessOp.Proper := by
  apply Calls.perform trivial; intro e
  apply Calls.perform trivial; intro e
  split
  · trivial
  · apply Calls.bind pcieDevRefreshBoardInfoLocked_proper; intro ret
    apply Calls.perform trivial; intro e
    apply Calls.perform trivial; intro e
    split
    · exact Calls.perform trivial fun _ => trivial
    · trivial

theorem queryDevs_proper (slots : List (Fin ambaPciDevMax)) :
    (queryDevs slots).Calls AccessOp.Proper := by
  induction slots with
  | nil => trivial
  | cons index rest ih =>
      apply Calls.bind (pcieQueryDevInfoLocked_proper _); intro info
      exact Calls.bind ih fun _ => trivial

theorem pcieDevInfoReadLocked_proper : (pcieDevInfoReadLocked index).Calls AccessOp.Proper := by
  apply Calls.bind (pcieQueryDevInfoLocked_proper _); intro info
  exact Calls.perform trivial fun _ => trivial

theorem pcieEntryDetachPdev_proper : (pcieEntryDetachPdev index).Calls AccessOp.Proper := by
  apply Calls.perform trivial; intro e
  split
  · trivial
  · apply Calls.bind
    · apply Calls.perform trivial; intro e
      split
      · trivial
      · apply withPdev_proper; intro pdev
        apply Calls.perform trivial; intro _
        exact Calls.perform trivial fun _ => trivial
    · intro _
      apply Calls.perform trivial; intro _
      exact Calls.perform trivial fun _ => trivial

theorem pcieCreateProcNodes_proper : (pcieCreateProcNodes index).Calls AccessOp.Proper := by
  apply Calls.perform trivial; intro procRoot
  split
  · trivial
  · apply Calls.perform trivial; intro _
    apply Calls.perform trivial; intro made
    apply Calls.perform trivial; intro _
    split
    · trivial
    · apply Calls.bind (onHost_proper _); intro created
      split
      · trivial
      · apply Calls.perform trivial; intro e
        apply Calls.bind (onHost_proper _); intro _
        apply Calls.perform trivial; intro _
        exact Calls.perform trivial fun _ => trivial

theorem releaseProcNodes_proper : (releaseProcNodes index).Calls AccessOp.Proper := by
  apply Calls.perform trivial; intro e
  split
  · apply Calls.bind (onHost_proper _); intro _
    apply Calls.perform trivial; intro _
    exact Calls.perform trivial fun _ => trivial
  · trivial

theorem pcieReleaseDev_proper : (pcieReleaseDev index).Calls AccessOp.Proper := by
  apply Calls.perform trivial; intro e
  split
  · trivial
  · apply Calls.bind pcieEntryDetachPdev_proper; intro _
    apply Calls.perform trivial; intro _
    apply Calls.bind releaseProcNodes_proper; intro _
    apply Calls.perform trivial; intro _
    refine write_proper ?_ fun _ => ?_
    · exact rfl
    · iterate 5 (apply Calls.perform trivial; intro _)
      exact ⟨BoardInfo.default_terminated, fun _ => trivial⟩

theorem pcieTryReconnectBootingLocked_proper {pdev : PciDev}
    (slot : pdev.bus = (pciePhysicalSlots index).bus) :
    (pcieTryReconnectBootingLocked pdev index).Calls AccessOp.Proper := by
  apply Calls.perform trivial; intro _
  refine write_proper ?_ fun _ => ?_
  · exact slot
  · apply Calls.perform trivial; intro _
    exact Calls.perform trivial fun _ => trivial

theorem pcieHandleDelLocked_proper (pdev : PciDev) :
    (pcieHandleDelLocked pdev).Calls AccessOp.Proper := by
  unfold pcieHandleDelLocked
  split
  · trivial
  · apply Calls.perform trivial; intro e
    split
    · trivial
    · apply Calls.perform trivial; intro e
      split
      · exact pcieEntryDetachPdev_proper
      · exact pcieReleaseDev_proper

theorem pcieRebootLocked_proper : (pcieRebootLocked index).Calls AccessOp.Proper := by
  apply Calls.perform trivial; intro e
  split
  · trivial
  · apply Calls.perform trivial; intro e
    split
    · trivial
    · exact Calls.perform trivial fun _ => trivial

end Access

/-! What holds at every moment -/

structure EntryAlways (index : Fin ambaPciDevMax) (e : Entry) : Prop where
  bus : ∀ pdev, e.pdev = some pdev → pdev.bus = (pciePhysicalSlots index).bus
  slot : e.inUse = true → e.phySlot = pciePhysicalSlots index
  board : e.boardInfo.Terminated

/-- What holds of the table also while a section is under way. -/
def Always (s : Platform) : Prop := ∀ index, EntryAlways index (s.devs index)

theorem platformInit_always (procRoot : Bool) : Always (platformInit procRoot) := fun _ =>
  { bus := fun _ impossible => nomatch impossible
    slot := fun impossible => nomatch impossible
    board := BoardInfo.default_terminated }

theorem EntryAlways.store {index : Fin ambaPciDevMax} {e : Entry} {field : EntryWrite}
    (always : EntryAlways index e) (proper : field.Proper index) :
    EntryAlways index (e.store field) := by
  obtain ⟨bus, slot, board⟩ := always
  cases field with
  | pdev pdev =>
      refine ⟨fun card here => ?_, slot, board⟩
      have stored : pdev = some card := here
      subst stored
      exact proper
  | inUse used =>
      have unused : used = false := proper
      refine ⟨bus, fun marked => ?_, board⟩
      have again : used = true := marked
      rw [unused] at again
      cases again
  | phySlot stored => exact ⟨bus, fun _ => proper, board⟩
  | boardInfo info => exact ⟨bus, slot, proper⟩
  | _ => exact ⟨bus, slot, board⟩

theorem EntryAlways.withWork {index : Fin ambaPciDevMax} {e : Entry}
    (always : EntryAlways index e) (work : DelayedWork) : EntryAlways index (e.withWork work) :=
  ⟨always.bus, always.slot, always.board⟩

theorem Always.setDev {s : Platform} {index : Fin ambaPciDevMax} {e : Entry} (always : Always s)
    (here : EntryAlways index e) : Always (s.setDev index e) := by
  intro other
  by_cases same : other = index
  · subst same
    rw [Platform.setDev_same]
    exact here
  · rw [Platform.setDev_other _ _ _ _ same]
    exact always other

theorem TimerMove.always {s s' : Platform} (moved : TimerMove s s') (always : Always s) :
    Always s' := by
  obtain ⟨index, work, -, rfl, -⟩ := moved.changes
  exact always.setDev ((always index).withWork work)

/-- The slot of an entry has been stored. -/
def SlotStored (index : Fin ambaPciDevMax) (s : Platform) : Prop :=
  (s.devs index).phySlot = pciePhysicalSlots index

theorem SlotStored.setDev {index other : Fin ambaPciDevMax} {s : Platform} {e : Entry}
    (stored : SlotStored index s)
    (kept : (s.devs other).phySlot = pciePhysicalSlots other →
      e.phySlot = pciePhysicalSlots other) : SlotStored index (s.setDev other e) := by
  unfold SlotStored
  by_cases same : index = other
  · subst same
    rw [Platform.setDev_same]
    exact kept stored
  · rw [Platform.setDev_other _ _ _ _ same]
    exact stored

theorem TimerMove.slotStored {s s' : Platform} {index : Fin ambaPciDevMax}
    (moved : TimerMove s s') (stored : SlotStored index s) : SlotStored index s' := by
  obtain ⟨slot, work, -, rfl, -⟩ := moved.changes
  exact stored.setDev fun here => here

/-- Every store is a proper one, or marks an entry in use whose slot has been stored. -/
def AccessOp.Stores (s : Platform) : AccessOp → Prop
  | .write index field => field.Proper index ∨ field = .inUse true ∧ SlotStored index s
  | _ => True

theorem AccessOp.Proper.stores {op : AccessOp} (proper : op.Proper) (s : Platform) :
    op.Stores s := by
  cases op with
  | write index field => exact Or.inl proper
  | _ => trivial

theorem AccessOp.Stores.always {s s' : Platform} {op : AccessOp} {reply : op.Reply}
    (stores : op.Stores s) (always : Always s) (answered : accessAnswer s op reply s') :
    Always s' := by
  cases op with
  | write index field =>
      have set : s' = s.setDev index ((s.devs index).store field) := answered
      rw [set]
      rcases stores with proper | ⟨same, stored⟩
      · exact always.setDev ((always index).store proper)
      · subst same
        exact always.setDev ⟨(always index).bus, fun _ => stored, (always index).board⟩
  | cancelWork index =>
      have set : s' = s.setDev index ((s.devs index).withWork _) := answered
      rw [set]
      exact always.setDev ((always index).withWork _)
  | scheduleWork index =>
      have set : s' = s.setDev index ((s.devs index).withWork _) := answered
      rw [set]
      exact always.setDev ((always index).withWork _)
  | workLeaves index =>
      rw [answered.2]
      exact always.setDev ((always index).withWork _)
  | read | nextDevId | procRoot =>
      rw [answered.2]
      exact always
  | setNextDevId id =>
      have set : s' = { s with nextDevId := id } := answered
      rw [set]
      exact always
  | kernel op =>
      have kept : s' = s := answered
      rw [kept]
      exact always

theorem AccessOp.Stores.slotStored {s s' : Platform} {index : Fin ambaPciDevMax} {op : AccessOp}
    {reply : op.Reply} (stores : op.Stores s) (stored : SlotStored index s)
    (answered : accessAnswer s op reply s') : SlotStored index s' := by
  cases op with
  | write other field =>
      have set : s' = s.setDev other ((s.devs other).store field) := answered
      rw [set]
      apply stored.setDev
      intro here
      cases field with
      | phySlot value =>
          rcases stores with proper | ⟨impossible, -⟩
          · exact proper
          · cases impossible
      | _ => exact here
  | cancelWork other =>
      have set : s' = s.setDev other ((s.devs other).withWork _) := answered
      rw [set]
      exact stored.setDev fun here => here
  | scheduleWork other =>
      have set : s' = s.setDev other ((s.devs other).withWork _) := answered
      rw [set]
      exact stored.setDev fun here => here
  | workLeaves other =>
      rw [answered.2]
      exact stored.setDev fun here => here
  | read | nextDevId | procRoot =>
      rw [answered.2]
      exact stored
  | setNextDevId id =>
      have set : s' = { s with nextDevId := id } := answered
      rw [set]
      exact stored
  | kernel op =>
      have kept : s' = s := answered
      rw [kept]
      exact stored

/-- The section keeps it at every moment, and stores nothing else. -/
def Keeps {α : Type} (program : Access α) : Prop :=
  ∀ s, Always s →
    accessMachine.wp (fun s' op => Always s' ∧ op.Stores s') (fun _ => Always) program s

open Machine (wp_calls wp_perform wp_seq wp_mono)

theorem always_stable : accessMachine.Stable Always := fun _ _ always moved => moved.always always

theorem Keeps.of_proper {α : Type} {program : Access α} (calls : program.Calls AccessOp.Proper) :
    Keeps program := fun _ always =>
  wp_calls always_stable (fun s _ proper here => ⟨here, proper.stores s⟩)
    (fun s _ _ _ proper here answered => (proper.stores s).always here answered) calls always

theorem Keeps.done {α : Type} (value : α) : Keeps (.done value) := .of_proper trivial

theorem Keeps.bind {α β : Type} {first : Access α} {next : α → Access β} (before : Keeps first)
    (after : ∀ value, Keeps (next value)) : Keeps (first >>= next) := fun s always =>
  wp_seq (before s always) fun value s' here => after value s' here

theorem Keeps.perform {β : Type} {op : AccessOp} {next : op.Reply → Access β}
    (stores : ∀ s, op.Stores s) (after : ∀ reply, Keeps (next reply)) :
    Keeps (Prog.perform op >>= next) := fun _ always =>
  wp_perform always_stable always (fun s here => ⟨here, stores s⟩)
    fun s _ s' here answered => after _ s' ((stores s).always here answered)

theorem Keeps.last {op : AccessOp} (stores : ∀ s, op.Stores s) : Keeps (Prog.perform op) := by
  have whole : Keeps (Prog.perform op >>= Prog.done) := Keeps.perform stores fun _ => .done _
  exact whole

/-- A store that is proper anywhere. -/
theorem Keeps.write {β : Type} {index : Fin ambaPciDevMax} {field : EntryWrite}
    {next : Unit → Access β} (proper : field.Proper index) (after : Keeps (next ())) :
    Keeps (Access.write index field >>= next) :=
  Keeps.perform (fun _ => Or.inl proper) fun _ => after

/-- The accesses after the store of an entry's slot, up to the store that marks it in use. -/
def AccessOp.Marks (index : Fin ambaPciDevMax) (op : AccessOp) : Prop :=
  op.Proper ∨ op = .write index (.inUse true)

theorem AccessOp.Marks.stores {index : Fin ambaPciDevMax} {op : AccessOp} (marks : op.Marks index)
    {s : Platform} (stored : SlotStored index s) : op.Stores s := by
  rcases marks with proper | rfl
  · exact proper.stores s
  · exact Or.inr ⟨rfl, stored⟩

theorem Keeps.marks {β : Type} {index : Fin ambaPciDevMax} {next : Unit → Access β}
    (after : (next ()).Calls (AccessOp.Marks index)) :
    Keeps (Access.write index (.phySlot (pciePhysicalSlots index)) >>= next) := by
  intro s always
  have proper : ∀ s, (AccessOp.write index (.phySlot (pciePhysicalSlots index))).Stores s :=
    fun _ => Or.inl rfl
  apply wp_perform always_stable always (fun s here => ⟨here, proper s⟩)
  intro s₁ reply s₂ here answered
  have set : s₂ = s₁.setDev index ((s₁.devs index).store (.phySlot (pciePhysicalSlots index))) :=
    answered
  have there : Always s₂ := by
    rw [set]
    exact here.setDev ((here index).store rfl)
  have stored : SlotStored index s₂ := by
    unfold SlotStored
    rw [set, Platform.setDev_same]
    rfl
  have stable : accessMachine.Stable fun s => Always s ∧ SlotStored index s :=
    fun s s' here moved => ⟨TimerMove.always moved here.1, TimerMove.slotStored moved here.2⟩
  have rest : accessMachine.wp (fun s' op => Always s' ∧ op.Stores s')
      (fun _ s' => Always s' ∧ SlotStored index s') (next reply) s₂ := wp_calls stable
    (fun _ _ marks here => ⟨here.1, marks.stores here.2⟩)
    (fun _ _ _ _ marks here answered => ⟨(marks.stores here.2).always here.1 answered,
      (marks.stores here.2).slotStored here.2 answered⟩) after ⟨there, stored⟩
  exact wp_mono rest fun _ _ here => here.1

namespace Access

variable {index : Fin ambaPciDevMax}

theorem write_marks {β : Type} {field : EntryWrite} {next : Unit → Access β}
    (proper : field.Proper index) (after : (next ()).Calls (AccessOp.Marks index)) :
    (write index field >>= next).Calls (AccessOp.Marks index) :=
  ⟨Or.inl proper, fun _ => after⟩

theorem pcieInitSlot_keeps {pdev : PciDev} (slot : pdev.bus = (pciePhysicalSlots index).bus) :
    Keeps (pcieInitSlot pdev index) := by
  apply Keeps.bind (.of_proper pcieCreateProcNodes_proper); intro ret
  split
  · exact .done _
  · refine Keeps.perform (fun _ => trivial) fun _ => ?_
    refine Keeps.write ?_ ?_
    · exact slot
    · refine Keeps.perform (fun _ => trivial) fun id => ?_
      refine Keeps.write trivial ?_
      refine Keeps.perform (fun _ => trivial) fun _ => ?_
      apply Keeps.marks
      refine write_marks trivial (write_marks ?_ ?_)
      · exact BoardInfo.default_terminated
      · refine write_marks trivial (write_marks trivial ?_)
        refine write_marks trivial (write_marks trivial ?_)
        exact ⟨Or.inr rfl, fun _ => trivial⟩

theorem pcieHandleAddLocked_keeps (pdev : PciDev) : Keeps (pcieHandleAddLocked pdev) := by
  unfold pcieHandleAddLocked
  split
  · exact .done _
  · rename_i slotId found
    have slot := getPciSlotId_bus found
    refine Keeps.perform (fun _ => trivial) fun e => ?_
    split
    · refine Keeps.perform (fun _ => trivial) fun e => ?_
      split
      · exact .done _
      · split
        · exact .of_proper (pcieTryReconnectBootingLocked_proper slot)
        · exact .done _
    · split
      · apply Keeps.bind (pcieInitSlot_keeps slot); intro ret
        split
        · exact .done _
        · exact .of_proper ⟨trivial, fun _ => trivial⟩
      · split
        · exact Keeps.bind (pcieInitSlot_keeps slot) fun _ => .done _
        · exact .done _

theorem pciePciBusNotify_keeps (action : BusAction) (pdev : PciDev) :
    Keeps (pciePciBusNotify action pdev) := by
  cases action with
  | addDevice => exact pcieHandleAddLocked_keeps pdev
  | delDevice => exact .of_proper (pcieHandleDelLocked_proper pdev)
  | other => exact .done _

theorem enumerateSlot_keeps (slot : PhysicalSlot) (present : List PciDev) :
    Keeps (enumerateSlot slot present) := by
  induction present with
  | nil => exact .done _
  | cons pdev rest ih =>
      unfold enumerateSlot
      split
      · split
        · exact ih
        · exact Keeps.bind (pcieHandleAddLocked_keeps pdev) fun _ => ih
      · exact ih

theorem enumerateSlots_keeps (present : List PciDev) (slots : List (Fin ambaPciDevMax)) :
    Keeps (enumerateSlots present slots) := by
  induction slots with
  | nil => exact .done _
  | cons index rest ih => exact Keeps.bind (enumerateSlot_keeps _ present) fun _ => ih

theorem pcieBootTimeoutFn_keeps : Keeps (pcieBootTimeoutFn index) := by
  refine Keeps.perform (fun _ => trivial) fun e => ?_
  split
  · refine Keeps.write trivial ?_
    exact Keeps.last fun _ => trivial
  · exact Keeps.last fun _ => trivial

theorem pcieXferFirmwareLocked_keeps (t : Timing) (req : FwXfer) :
    Keeps (pcieXferFirmwareLocked t req index) := by
  refine Keeps.perform (fun _ => trivial) fun e => ?_
  split
  · exact .done _
  · refine Keeps.perform (fun _ => trivial) fun e => ?_
    split
    · exact .done _
    · apply Keeps.bind (.of_proper pcieDevRefreshBoardInfoLocked_proper); intro ret
      split
      · exact .done _
      · refine Keeps.perform (fun _ => trivial) fun e => ?_
        split
        · refine Keeps.perform (fun _ => trivial) fun _ => ?_
          refine Keeps.perform (fun _ => trivial) fun e => ?_
          apply Keeps.bind (.of_proper (onHost_proper _)); intro ret
          split
          · exact .done _
          · refine Keeps.write trivial ?_
            refine Keeps.perform (fun _ => trivial) fun _ => ?_
            exact Keeps.perform (fun _ => trivial) fun _ => .done _
        · exact .of_proper (onHost_proper _)

end Access

/-! Sections in one piece -/

def NoAccess : AccessOp → Prop := fun _ => False

namespace Access

variable {index : Fin ambaPciDevMax}

theorem early_of_proper {α : Type} {program : Access α} (calls : program.Calls AccessOp.Proper) :
    program.Calls AccessOp.Early := calls.mono fun _ => AccessOp.Proper.early

theorem pcieInitSlot_early (pdev : PciDev) : (pcieInitSlot pdev index).Calls AccessOp.Early := by
  apply Calls.bind (early_of_proper pcieCreateProcNodes_proper); intro ret
  split
  · trivial
  · iterate 12 (apply Calls.perform trivial; intro _)
    exact Calls.perform trivial fun _ => trivial

theorem pcieHandleAddLocked_early (pdev : PciDev) :
    (pcieHandleAddLocked pdev).Calls AccessOp.Early := by
  unfold pcieHandleAddLocked
  split
  · trivial
  · rename_i slotId found
    apply Calls.perform trivial; intro e
    split
    · apply Calls.perform trivial; intro e
      split
      · trivial
      · split
        · exact early_of_proper (pcieTryReconnectBootingLocked_proper (getPciSlotId_bus found))
        · trivial
    · split
      · apply Calls.bind (pcieInitSlot_early pdev); intro ret
        split
        · trivial
        · exact ⟨trivial, fun _ => trivial⟩
      · split
        · exact Calls.bind (pcieInitSlot_early pdev) fun _ => trivial
        · trivial

theorem pciePciBusNotify_early (action : BusAction) (pdev : PciDev) :
    (pciePciBusNotify action pdev).Calls AccessOp.Early := by
  cases action with
  | addDevice => exact pcieHandleAddLocked_early pdev
  | delDevice => exact early_of_proper (pcieHandleDelLocked_proper pdev)
  | other => trivial

theorem enumerateSlot_early (slot : PhysicalSlot) (present : List PciDev) :
    (enumerateSlot slot present).Calls AccessOp.Early := by
  induction present with
  | nil => trivial
  | cons pdev rest ih =>
      unfold enumerateSlot
      split
      · split
        · exact ih
        · exact Calls.bind (pcieHandleAddLocked_early pdev) fun _ => ih
      · exact ih

theorem enumerateSlots_early (present : List PciDev) (slots : List (Fin ambaPciDevMax)) :
    (enumerateSlots present slots).Calls AccessOp.Early := by
  induction slots with
  | nil => trivial
  | cons index rest ih => exact Calls.bind (enumerateSlot_early _ present) fun _ => ih

/-- The return of the work function is its last step. -/
theorem pcieBootTimeoutFn_atomic :
    (pcieBootTimeoutFn index).Atomic AccessOp.Early NoAccess := by
  apply Atomic.perform trivial; intro e
  split
  · apply Atomic.perform trivial; intro _
    exact Or.inr fun _ => trivial
  · exact Or.inr fun _ => trivial

theorem pcieXferFirmwareLocked_stays (t : Timing) (req : FwXfer) :
    (pcieXferFirmwareLocked t req index).Calls AccessOp.Stays := by
  apply Calls.perform trivial; intro e
  split
  · trivial
  · apply Calls.perform trivial; intro e
    split
    · trivial
    · have proper : (pcieDevRefreshBoardInfoLocked index).Calls AccessOp.Proper :=
        pcieDevRefreshBoardInfoLocked_proper
      have refreshed := early_of_proper proper
      apply Calls.bind (refreshed.mono fun _ => AccessOp.Early.stays); intro ret
      split
      · trivial
      · apply Calls.perform trivial; intro e
        split
        · apply Calls.perform trivial; intro _
          apply Calls.perform trivial; intro e
          apply Calls.bind ((early_of_proper (onHost_proper _)).mono fun _ => AccessOp.Early.stays)
          intro ret
          split
          · trivial
          · apply Calls.perform trivial; intro _
            apply Calls.perform trivial; intro _
            exact Calls.perform trivial fun _ => trivial
        · exact (early_of_proper (onHost_proper _)).mono fun _ => AccessOp.Early.stays

/-- The timer is armed last. -/
theorem pcieXferFirmwareLocked_atomic (t : Timing) (req : FwXfer) :
    (pcieXferFirmwareLocked t req index).Atomic AccessOp.Early NoAccess := by
  apply Atomic.perform trivial; intro e
  split
  · trivial
  · apply Atomic.perform trivial; intro e
    split
    · trivial
    · apply Atomic.bind (early_of_proper pcieDevRefreshBoardInfoLocked_proper); intro ret
      split
      · trivial
      · apply Atomic.perform trivial; intro e
        split
        · apply Atomic.perform trivial; intro _
          apply Atomic.perform trivial; intro e
          apply Atomic.bind (early_of_proper (onHost_proper _)); intro ret
          split
          · trivial
          · apply Atomic.perform trivial; intro _
            apply Atomic.perform trivial; intro _
            exact Atomic.pivot fun _ => trivial
        · exact Atomic.of_calls (early_of_proper (onHost_proper _))

end Access

end AmbaPci

import AmbaPci.XferFirmware

set_option autoImplicit false

/- What each slot table operation can do to the entry it works on, whatever the kernel replies. -/
namespace AmbaPci

open Interaction.Prog
  (Returns returns_done_iff returns_perform_iff returns_bind_iff returns_call_iff)

variable {allow : (op : Op) → op.Reply → Prop}

/-- Reading the board info can only fill the boot BAR and board info fields, and only those of an
entry with a device. -/
structure Refreshes (e e' : Entry) : Prop where
  pdev : e'.pdev = e.pdev
  id : e'.id = e.id
  procDir : e'.procDir = e.procDir
  procName : e'.procName = e.procName
  inUse : e'.inUse = e.inUse
  state : e'.state = e.state
  phySlot : e'.phySlot = e.phySlot
  work : e'.bootTimeoutWork = e.bootTimeoutWork
  detached : e.pdev = none → e' = e

theorem Refreshes.refl (e : Entry) : Refreshes e e :=
  ⟨rfl, rfl, rfl, rfl, rfl, rfl, rfl, rfl, fun _ => rfl⟩

theorem Refreshes.trans {e₁ e₂ e₃ : Entry} (first : Refreshes e₁ e₂) (second : Refreshes e₂ e₃) :
    Refreshes e₁ e₃ where
  pdev := second.pdev.trans first.pdev
  id := second.id.trans first.id
  procDir := second.procDir.trans first.procDir
  procName := second.procName.trans first.procName
  inUse := second.inUse.trans first.inUse
  state := second.state.trans first.state
  phySlot := second.phySlot.trans first.phySlot
  work := second.work.trans first.work
  detached := fun none => (second.detached (first.pdev.trans none)).trans (first.detached none)

theorem pcieMapFoundBar_returns {pdev : PciDev} {e e' : Entry} {ret : Int}
    (attached : e.pdev = some pdev)
    (returned : Returns allow (pcieMapFoundBar pdev e) (ret, e')) :
    Refreshes e e' ∧ (ret = 0 → e'.bootMemBase.isSome) := by
  have absent : e.pdev = none → e' = e := fun none => by simp [attached] at none
  have failed : (-enxio : Int) ≠ 0 ∧ (-eio : Int) ≠ 0 := by decide
  obtain ⟨res, -, returned⟩ := (returns_perform_iff _ _ _).mp returned
  split at returned
  · cases (returns_done_iff _ _).mp returned
    exact ⟨.refl e, fun zero => absurd zero failed.1⟩
  · obtain ⟨err, -, returned⟩ := (returns_bind_iff _ _ _).mp returned
    split at returned
    · rename_i nonzero
      cases (returns_done_iff _ _).mp returned
      exact ⟨.refl e, fun zero => absurd zero nonzero⟩
    · obtain ⟨base, -, returned⟩ := (returns_perform_iff _ _ _).mp returned
      split at returned
      · cases (returns_done_iff _ _).mp returned
        exact ⟨⟨rfl, rfl, rfl, rfl, rfl, rfl, rfl, rfl, fun none => by simp [attached] at none⟩,
          fun zero => absurd zero failed.2⟩
      · cases (returns_done_iff _ _).mp returned
        exact ⟨⟨rfl, rfl, rfl, rfl, rfl, rfl, rfl, rfl, fun none => by simp [attached] at none⟩,
          fun _ => rfl⟩

theorem pcieMapBootBar_returns {pdev : PciDev} {e e' : Entry} {ret : Int}
    (attached : e.pdev = some pdev)
    (returned : Returns allow (pcieMapBootBar pdev e) (ret, e')) :
    Refreshes e e' ∧ (ret = 0 → e'.bootMemBase.isSome) := by
  unfold pcieMapBootBar at returned
  split at returned
  · split at returned
    · cases (returns_done_iff _ _).mp returned
      exact ⟨.refl e, fun zero => absurd zero (by decide)⟩
    · rename_i bar _
      have found : { e with bootBar := (bar.val : Int), bootLen := pciResourceLen pdev bar }.pdev =
          some pdev := attached
      obtain ⟨refreshed, mapped⟩ := pcieMapFoundBar_returns found returned
      refine ⟨Refreshes.trans ?_ refreshed, mapped⟩
      exact ⟨rfl, rfl, rfl, rfl, rfl, rfl, rfl, rfl, fun none => by simp [attached] at none⟩
  · exact pcieMapFoundBar_returns attached returned

/-- The retry loop: with no attempt left the last result must already be a failure. -/
theorem pcieBootBarMapRetry_returns {pdev : PciDev} (attempts : Nat) {last ret : Int}
    {e e' : Entry} (attached : e.pdev = some pdev) (failed : attempts = 0 → last ≠ 0)
    (returned : Returns allow (pcieBootBarMapRetry pdev attempts last e) (ret, e')) :
    Refreshes e e' ∧ (ret = 0 → e'.bootMemBase.isSome) := by
  induction attempts generalizing last e with
  | zero =>
      cases (returns_done_iff _ _).mp returned
      exact ⟨.refl _, fun zero => absurd zero (failed rfl)⟩
  | succ attempts ih =>
      obtain ⟨⟨attempt, mapped⟩, first, returned⟩ := (returns_bind_iff _ _ _).mp returned
      obtain ⟨refreshed, live⟩ := pcieMapBootBar_returns attached first
      simp only at returned
      split at returned
      · cases (returns_done_iff _ _).mp returned
        exact ⟨refreshed, live⟩
      · rename_i nonzero
        split at returned
        · cases (returns_done_iff _ _).mp returned
          exact ⟨refreshed, live⟩
        · obtain ⟨_, -, returned⟩ := (returns_perform_iff _ _ _).mp returned
          obtain ⟨later, liveLater⟩ :=
            ih (refreshed.pdev.trans attached) (fun _ => nonzero) returned
          exact ⟨refreshed.trans later, liveLater⟩

/-- `pcie_boot_bar_ensure_mapped` leaves a mapping whenever it reports success. -/
theorem pcieBootBarEnsureMapped_returns {pdev : PciDev} {e e' : Entry} {ret : Int}
    (attached : e.pdev = some pdev)
    (returned : Returns allow (pcieBootBarEnsureMapped pdev e) (ret, e')) :
    Refreshes e e' ∧ (ret = 0 → e'.bootMemBase.isSome) := by
  unfold pcieBootBarEnsureMapped at returned
  split at returned
  · rename_i already
    cases (returns_done_iff _ _).mp returned
    exact ⟨.refl _, fun _ => already⟩
  · obtain ⟨⟨attempt, mapped⟩, first, returned⟩ := (returns_bind_iff _ _ _).mp returned
    have retried := pcieBootBarMapRetry_returns _ attached (by decide) first
    simp only at returned
    split at returned
    · cases (returns_done_iff _ _).mp returned
      exact ⟨retried.1, fun zero => absurd zero (by decide)⟩
    · cases (returns_done_iff _ _).mp returned
      exact retried

/-- What an attempt to map the boot BAR leaves alone, and where the mapping comes from. -/
structure MapsBar (allow : (op : Op) → op.Reply → Prop) (pdev : PciDev) (e e' : Entry) : Prop where
  attached : e'.pdev = e.pdev
  boardInfo : e'.boardInfo = e.boardInfo
  updated : e'.boardInfoIsUpdated = e.boardInfoIsUpdated
  origin : ∀ base, e'.bootMemBase = some base →
    e.bootMemBase = some base ∨ ∃ bar length, allow (.pciIomap pdev bar length) (some base)

theorem MapsBar.refl (pdev : PciDev) (e : Entry) : MapsBar allow pdev e e :=
  ⟨rfl, rfl, rfl, fun _ present => Or.inl present⟩

theorem MapsBar.trans {pdev : PciDev} {e₁ e₂ e₃ : Entry} (first : MapsBar allow pdev e₁ e₂)
    (second : MapsBar allow pdev e₂ e₃) : MapsBar allow pdev e₁ e₃ where
  attached := second.attached.trans first.attached
  boardInfo := second.boardInfo.trans first.boardInfo
  updated := second.updated.trans first.updated
  origin base present := by
    rcases second.origin base present with earlier | made
    · exact first.origin base earlier
    · exact Or.inr made

theorem pcieMapFoundBar_mapsBar {pdev : PciDev} {e e' : Entry} {ret : Int}
    (returned : Returns allow (pcieMapFoundBar pdev e) (ret, e')) : MapsBar allow pdev e e' := by
  obtain ⟨res, -, returned⟩ := (returns_perform_iff _ _ _).mp returned
  split at returned
  · cases (returns_done_iff _ _).mp returned
    exact .refl pdev e
  · obtain ⟨err, -, returned⟩ := (returns_bind_iff _ _ _).mp returned
    split at returned
    · cases (returns_done_iff _ _).mp returned
      exact .refl pdev e
    · obtain ⟨mapped, allowed, returned⟩ := (returns_perform_iff _ _ _).mp returned
      split at returned
      · cases (returns_done_iff _ _).mp returned
        exact ⟨rfl, rfl, rfl, fun base none => nomatch none⟩
      · cases (returns_done_iff _ _).mp returned
        refine ⟨rfl, rfl, rfl, fun base present => ?_⟩
        cases present
        exact Or.inr ⟨e.bootBar, e.bootLen, allowed⟩

theorem pcieMapBootBar_mapsBar {pdev : PciDev} {e e' : Entry} {ret : Int}
    (returned : Returns allow (pcieMapBootBar pdev e) (ret, e')) : MapsBar allow pdev e e' := by
  unfold pcieMapBootBar at returned
  split at returned
  · split at returned
    · cases (returns_done_iff _ _).mp returned
      exact .refl pdev e
    · have found := pcieMapFoundBar_mapsBar returned
      exact ⟨found.attached, found.boardInfo, found.updated, found.origin⟩
  · exact pcieMapFoundBar_mapsBar returned

theorem pcieBootBarMapRetry_mapsBar {pdev : PciDev} (attempts : Nat) {last ret : Int}
    {e e' : Entry} (returned : Returns allow (pcieBootBarMapRetry pdev attempts last e) (ret, e')) :
    MapsBar allow pdev e e' := by
  induction attempts generalizing last e with
  | zero =>
      cases (returns_done_iff _ _).mp returned
      exact .refl pdev _
  | succ attempts ih =>
      obtain ⟨⟨attempt, mapped⟩, first, returned⟩ := (returns_bind_iff _ _ _).mp returned
      have here := pcieMapBootBar_mapsBar first
      simp only at returned
      split at returned
      · cases (returns_done_iff _ _).mp returned
        exact here
      · split at returned
        · cases (returns_done_iff _ _).mp returned
          exact here
        · obtain ⟨_, -, returned⟩ := (returns_perform_iff _ _ _).mp returned
          exact here.trans (ih returned)

/-- The mapping step of a refresh keeps the board info, and maps no other device. -/
theorem refreshBootMapping_mapsBar {pdev : PciDev} {e e' : Entry} {ret : Int}
    (returned : Returns allow (refreshBootMapping pdev e) (ret, e')) :
    MapsBar allow pdev e e' := by
  unfold refreshBootMapping at returned
  split at returned
  · unfold pcieBootBarEnsureMapped at returned
    split at returned
    · cases (returns_done_iff _ _).mp returned
      exact .refl pdev _
    · obtain ⟨⟨attempt, mapped⟩, first, returned⟩ := (returns_bind_iff _ _ _).mp returned
      have retried := pcieBootBarMapRetry_mapsBar _ first
      dsimp only at returned
      split at returned
      · cases (returns_done_iff _ _).mp returned
        exact retried
      · cases (returns_done_iff _ _).mp returned
        exact retried
  · cases (returns_done_iff _ _).mp returned
    exact .refl pdev _

/-- The board info is only ever read of a DISCONNECTED entry with a device. -/
theorem pcieDevRefreshBoardInfoLocked_returns {e e' : Entry} {ret : Int}
    (returned : Returns allow (pcieDevRefreshBoardInfoLocked e) (ret, e')) :
    Refreshes e e' ∧ (e.state ≠ .disconnected → e' = e) ∧
      (e.state = .disconnected → ret = 0 → e.pdev.isSome ∧ e'.bootMemBase.isSome) := by
  unfold pcieDevRefreshBoardInfoLocked at returned
  split at returned
  · rename_i busy
    cases (returns_done_iff _ _).mp returned
    exact ⟨.refl _, fun _ => rfl, fun idle => absurd idle busy⟩
  · rename_i idle
    split at returned
    · cases (returns_done_iff _ _).mp returned
      exact ⟨.refl _, fun _ => rfl, fun _ zero => absurd zero (by decide)⟩
    · rename_i pdev attached
      obtain ⟨⟨mapRet, mapped⟩, first, returned⟩ := (returns_bind_iff _ _ _).mp returned
      have ready : Refreshes e mapped ∧ (mapRet = 0 → mapped.bootMemBase.isSome) := by
        unfold refreshBootMapping at first
        split at first
        · exact pcieBootBarEnsureMapped_returns attached first
        · rename_i live
          cases (returns_done_iff _ _).mp first
          exact ⟨.refl _, fun _ => by simpa [Option.isSome_iff_ne_none] using live⟩
      have some : e.pdev.isSome := by rw [attached]; rfl
      simp only at returned
      split at returned
      · rename_i nonzero
        cases (returns_done_iff _ _).mp returned
        exact ⟨ready.1, fun busy => absurd busy idle, fun _ zero => absurd zero nonzero⟩
      · split at returned
        · obtain ⟨bd, -, returned⟩ := (returns_bind_iff _ _ _).mp returned
          cases (returns_done_iff _ _).mp returned
          refine ⟨ready.1.trans ?_, fun busy => absurd busy idle,
            fun _ zero => ⟨some, ready.2 zero⟩⟩
          exact ⟨rfl, rfl, rfl, rfl, rfl, rfl, rfl, rfl, fun none => by
            rw [ready.1.pdev, attached] at none
            cases none⟩
        · cases (returns_done_iff _ _).mp returned
          exact ⟨ready.1, fun busy => absurd busy idle, fun _ zero => ⟨some, ready.2 zero⟩⟩

/-- A DISCONNECTED entry that was refreshed without an error has its device and its mapping. -/
theorem pcieDevRefreshBoardInfoLocked_live {e e' : Entry} {ret : Int}
    (returned : Returns allow (pcieDevRefreshBoardInfoLocked e) (ret, e'))
    (idle : e.state = .disconnected) (zero : ret = 0) :
    ∃ pdev base, e'.pdev = some pdev ∧ e'.bootMemBase = some base := by
  obtain ⟨change, -, live⟩ := pcieDevRefreshBoardInfoLocked_returns returned
  obtain ⟨attached, mapped⟩ := live idle zero
  rw [← change.pdev] at attached
  obtain ⟨pdev, somePdev⟩ := Option.isSome_iff_exists.mp attached
  obtain ⟨base, someBase⟩ := Option.isSome_iff_exists.mp mapped
  exact ⟨pdev, base, somePdev, someBase⟩

theorem pcieQueryDevInfoLocked_returns {e e' : Entry} {slot : Nat} {info : DevInfo}
    (returned : Returns allow (pcieQueryDevInfoLocked e slot) (info, e')) :
    Refreshes e e' ∧ (e.inUse = false → e' = e) := by
  unfold pcieQueryDevInfoLocked at returned
  dsimp only at returned
  split at returned
  · cases (returns_done_iff _ _).mp returned
    exact ⟨.refl _, fun _ => rfl⟩
  · rename_i used
    obtain ⟨⟨ret, refreshed⟩, first, returned⟩ := (returns_bind_iff _ _ _).mp returned
    cases (returns_done_iff _ _).mp returned
    exact ⟨(pcieDevRefreshBoardInfoLocked_returns first).1, fun free => by simp [free] at used⟩

/-- The entry `pcie_entry_detach_pdev` leaves. -/
def detached (e : Entry) : Entry :=
  if e.pdev.isNone then e else { e with pdev := none, bootMemBase := none }

theorem pcieEntryDetachPdev_returns {e e' : Entry}
    (returned : Returns allow (pcieEntryDetachPdev e) e') : e' = detached e := by
  unfold pcieEntryDetachPdev at returned
  split at returned
  · rename_i none
    cases (returns_done_iff _ _).mp returned
    simp [detached, none]
  · rename_i pdev attached
    obtain ⟨unmapped, first, returned⟩ := (returns_bind_iff _ _ _).mp returned
    obtain ⟨_, -, returned⟩ := (returns_perform_iff _ _ _).mp returned
    cases (returns_done_iff _ _).mp returned
    unfold pcieBootBarUnmap at first
    split at first
    · rename_i unmappedAlready
      cases (returns_done_iff _ _).mp first
      simp [detached, attached, ← unmappedAlready]
    · obtain ⟨_, -, first⟩ := (returns_perform_iff _ _ _).mp first
      cases (returns_done_iff _ _).mp first
      simp [detached, attached]

/-- The entry `pcie_release_dev` leaves of one in use. -/
def released (e : Entry) : Entry :=
  { e with pdev := none, procDir := false,
           procName := if e.procDir then none else e.procName,
           bootTimeoutWork := cancelDelayedWork e.bootTimeoutWork,
           id := 0, inUse := false, state := .disconnected, bootBar := -1, bootLen := 0,
           bootMemBase := none, boardInfoIsUpdated := false, boardInfo := {} }

theorem pcieReleaseDev_returns {e e' : Entry} (returned : Returns allow (pcieReleaseDev e) e') :
    e' = if e.inUse then released e else e := by
  unfold pcieReleaseDev at returned
  split at returned
  · rename_i free
    cases (returns_done_iff _ _).mp returned
    simp only [Bool.not_eq_eq_eq_not, Bool.not_true] at free
    simp [free]
  · rename_i used
    obtain ⟨loose, first, returned⟩ := (returns_bind_iff _ _ _).mp returned
    obtain ⟨bare, second, returned⟩ := (returns_bind_iff _ _ _).mp returned
    cases (returns_done_iff _ _).mp returned
    have inUse : e.inUse = true := by simpa using used
    have detach := pcieEntryDetachPdev_returns first
    unfold releaseProcNodes at second
    split at second
    · rename_i dir
      obtain ⟨_, -, second⟩ := (returns_bind_iff _ _ _).mp second
      cases (returns_done_iff _ _).mp second
      subst detach
      simp only [detached] at dir ⊢
      split at dir <;> simp_all [released]
    · rename_i dir
      cases (returns_done_iff _ _).mp second
      subst detach
      simp only [detached] at dir ⊢
      split at dir <;> simp_all [released]

/-- The proc nodes of a slot may not come into being: no root, or the kernel may refuse. -/
def ProcMayFail (allow : (op : Op) → op.Reply → Prop) (procRoot : Bool) : Prop :=
  procRoot = false ∨ (∃ name, allow (.procMkdir name) false) ∨
    ∃ name node, allow (.procCreateData name node) false

theorem createProcEntries_returns {name : Nat} (nodes : List ProcNode)
    (returned : Returns allow (createProcEntries name nodes) false) :
    ∃ node, allow (.procCreateData name node) false := by
  induction nodes with
  | nil => cases (returns_done_iff _ _).mp returned
  | cons node rest ih =>
      obtain ⟨created, allowed, returned⟩ := (returns_perform_iff _ _ _).mp returned
      split at returned
      · rename_i refused
        have refused : created = false := refused
        rw [refused] at allowed
        exact ⟨node, allowed⟩
      · exact ih returned

theorem pcieCreateProcNodes_returns {procRoot : Bool} {e e' : Entry} {index : Nat} {ret : Int}
    (returned : Returns allow (pcieCreateProcNodes procRoot e index) (ret, e')) :
    (ret = 0 ∧ e' = { e with procName := some index, procDir := true }) ∨
      (ret ≠ 0 ∧ ProcMayFail allow procRoot ∧
        (e' = e ∨ ∃ name, e' = { e with procName := name, procDir := false })) := by
  unfold pcieCreateProcNodes at returned
  split at returned
  · rename_i rootless
    cases (returns_done_iff _ _).mp returned
    exact Or.inr ⟨by decide, Or.inl (by simpa using rootless), Or.inl rfl⟩
  · obtain ⟨made, allowed, returned⟩ := (returns_perform_iff _ _ _).mp returned
    split at returned
    · rename_i unmade
      have unmade : made = false := unmade
      cases (returns_done_iff _ _).mp returned
      rw [unmade] at allowed
      refine Or.inr ⟨by decide, Or.inr (Or.inl ⟨index, allowed⟩), Or.inr ⟨some index, ?_⟩⟩
      rw [unmade]
    · rename_i dir
      obtain ⟨created, entries, returned⟩ := (returns_bind_iff _ _ _).mp returned
      have present : made = true := by simpa using dir
      split at returned
      · cases (returns_done_iff _ _).mp returned
        exact Or.inl ⟨rfl, by rw [present]⟩
      · rename_i refused
        obtain ⟨_, -, returned⟩ := (returns_bind_iff _ _ _).mp returned
        cases (returns_done_iff _ _).mp returned
        have refused : created = false := by simpa using refused
        rw [refused] at entries
        obtain ⟨node, allowed⟩ := createProcEntries_returns _ entries
        exact Or.inr ⟨by decide, Or.inr (Or.inr ⟨index, node, allowed⟩), Or.inr ⟨none, rfl⟩⟩

/-- The entry `pcie_init_slot` makes for a device. -/
def initialized (pdev : PciDev) (index : Fin ambaPciDevMax) (id : BitVec 32) (e : Entry) : Entry :=
  { e with procName := some index.val, procDir := true, pdev := some pdev, id := id,
           phySlot := pciePhysicalSlots index, boardInfoIsUpdated := false, boardInfo := {},
           bootBar := -1, bootLen := 0, bootMemBase := none, state := .disconnected,
           inUse := true }

theorem pcieInitSlot_returns {pdev : PciDev} {index : Fin ambaPciDevMax} {s s' : Platform}
    {ret : Int} (returned : Returns allow (pcieInitSlot pdev index s) (ret, s')) :
    (ret = 0 ∧ s' = { s.setDev index (initialized pdev index s.nextDevId (s.devs index)) with
        nextDevId := s.nextDevId + 1 }) ∨
      (ret ≠ 0 ∧ ProcMayFail allow s.procRoot ∧ ∃ e', s' = s.setDev index e' ∧
        (e' = s.devs index ∨
          ∃ name, e' = { s.devs index with procName := name, procDir := false })) := by
  obtain ⟨⟨nodes, e'⟩, first, returned⟩ := (returns_bind_iff _ _ _).mp returned
  simp only at returned
  rcases pcieCreateProcNodes_returns first with ⟨zero, made⟩ | ⟨nonzero, failable, unmade⟩
  · subst made zero
    rw [if_neg (by decide)] at returned
    obtain ⟨_, -, returned⟩ := (returns_perform_iff _ _ _).mp returned
    cases (returns_done_iff _ _).mp returned
    exact Or.inl ⟨rfl, rfl⟩
  · rw [if_pos nonzero] at returned
    cases (returns_done_iff _ _).mp returned
    exact Or.inr ⟨nonzero, failable, e', rfl, unmade⟩

/-- The locked section of XFER_FIRMWARE leaves the entry BOOTING with its timeout armed, or has
only refreshed it. -/
theorem pcieXferFirmwareLocked_returns {t : Timing} {req : FwXfer} {e e' : Entry} {ret : Int}
    (returned : Returns allow (pcieXferFirmwareLocked t req e) (ret, e')) :
    (ret ≠ 0 ∧ Refreshes e e' ∧ (e.inUse = false ∨ e.state ≠ .disconnected → e' = e)) ∨
      (ret = 0 ∧ e.inUse = true ∧ e.state = .disconnected ∧ e.pdev.isSome ∧
        ∃ mapped, Refreshes e mapped ∧
          e' = pcieBootTimeoutSchedule { mapped with state := .booting }) := by
  unfold pcieXferFirmwareLocked at returned
  split at returned
  · cases (returns_done_iff _ _).mp returned
    exact Or.inl ⟨by decide, .refl _, fun _ => rfl⟩
  · rename_i used
    split at returned
    · cases (returns_done_iff _ _).mp returned
      exact Or.inl ⟨by decide, .refl _, fun _ => rfl⟩
    · rename_i idle
      have inUse : e.inUse = true := by simpa using used
      have disconnected : e.state = .disconnected := by simpa using idle
      have taken : ¬ (e.inUse = false ∨ e.state ≠ .disconnected) := by simp [inUse, disconnected]
      obtain ⟨⟨first, mapped⟩, refreshing, returned⟩ := (returns_bind_iff _ _ _).mp returned
      obtain ⟨refreshed, -, live⟩ := pcieDevRefreshBoardInfoLocked_returns refreshing
      simp only at returned
      split at returned
      · rename_i nonzero
        cases (returns_done_iff _ _).mp returned
        exact Or.inl ⟨nonzero, refreshed, fun other => absurd other taken⟩
      · rename_i zero
        split at returned
        · obtain ⟨_, -, returned⟩ := (returns_perform_iff _ _ _).mp returned
          obtain ⟨sent, -, returned⟩ := (returns_bind_iff _ _ _).mp returned
          split at returned
          · rename_i nonzero
            cases (returns_done_iff _ _).mp returned
            exact Or.inl ⟨nonzero, refreshed, fun other => absurd other taken⟩
          · cases (returns_done_iff _ _).mp returned
            exact Or.inr ⟨rfl, inUse, disconnected,
              (live disconnected (Decidable.not_not.mp zero)).1,
              mapped, refreshed, rfl⟩
        · obtain ⟨impossible, -, -⟩ := (returns_call_iff _ _ _).mp returned
          exact nomatch impossible

end AmbaPci

import AmbaPci.SlotResources
import AmbaPci.SlotSections

set_option autoImplicit false

/- The holdings of the whole table. Each slot has its own mapping and proc directory, and the
sections of the driver keep it so. -/
namespace AmbaPci

open Interaction Interaction.Prog Interaction.Machine Interaction.Ledger

/-- An entry out of use names nothing and holds nothing, and only an entry with a device maps. -/
structure SlotSound (e : Entry) : Prop where
  unused : e.inUse = false →
    e.pdev = none ∧ e.bootMemBase = none ∧ e.procDir = false ∧ e.state = .disconnected
  mapped : e.bootMemBase ≠ none → e.pdev ≠ none

theorem SlotSound.refreshed {e e' : Entry} (sound : SlotSound e) (change : Refreshes e e')
    (idle : e.inUse = false → e' = e) : SlotSound e' where
  unused free := by
    have free := change.inUse ▸ free
    rw [idle free]
    exact sound.unused free
  mapped present := by
    rw [change.pdev]
    intro none
    rw [change.detached none] at present
    exact sound.mapped present none

theorem SlotSound.added {e e' : Entry} {pdev : PciDev} {index : Fin ambaPciDevMax}
    {id : BitVec 32} {mayFail : Prop} (sound : SlotSound e)
    (outcome : AddOutcome mayFail pdev index id e e') : SlotSound e' := by
  cases outcome with
  | ignored | unsupported => exact sound
  | reconnected used =>
      constructor
      · intro free
        rw [used] at free
        cases free
      · intro _ none
        cases none
  | connected | initialized =>
      exact ⟨fun impossible => (nomatch impossible), fun present => absurd rfl present⟩
  | failed _ free _ _ undone =>
      obtain ⟨noDev, unmapped, _, state⟩ := sound.unused free
      rcases undone with rfl | ⟨name, rfl⟩
      · exact sound
      · exact ⟨fun _ => ⟨noDev, unmapped, rfl, state⟩, sound.mapped⟩

theorem SlotSound.released (e : Entry) : SlotSound (released e) :=
  ⟨fun _ => ⟨rfl, rfl, rfl, rfl⟩, fun present => absurd rfl present⟩

theorem SlotSound.removed {e e' : Entry} (sound : SlotSound e) (outcome : DelOutcome e e') :
    SlotSound e' := by
  cases outcome with
  | ignored => exact sound
  | released => exact .released e
  | detached used =>
      unfold detached
      split
      · exact sound
      · constructor
        · intro free
          rw [used] at free
          cases free
        · intro present
          exact absurd rfl present

theorem SlotSound.own {e e' : Entry} {told : Prop} (sound : SlotSound e)
    (move : OwnMove told e e') : SlotSound e' := by
  cases move with
  | refreshed change idle => exact sound.refreshed change idle
  | booted used _ _ change =>
      have refreshed := sound.refreshed change fun free => by
        rw [used] at free
        cases free
      refine ⟨fun free => ?_, refreshed.mapped⟩
      have inUse := change.inUse.trans used
      rw [inUse] at free
      cases free
  | rebooted _ _ running =>
      refine ⟨fun free => ?_, sound.mapped⟩
      rw [(sound.unused free).2.2.2] at running
      cases running
  | timerExpired | workStarted => exact ⟨sound.unused, sound.mapped⟩
  | workRan =>
      unfold pcieBootTimeoutFn
      split
      · rename_i failing
        refine ⟨fun free => ?_, sound.mapped⟩
        rw [failing.1] at free
        cases free
      · exact ⟨sound.unused, sound.mapped⟩

theorem SlotSound.move {e e' : Entry} {index : Fin ambaPciDevMax} (sound : SlotSound e)
    (move : EntryMove index e e') : SlotSound e' := by
  cases move with
  | own move => exact sound.own move
  | added _ _ _ outcome => exact sound.added outcome
  | removed outcome => exact sound.removed outcome

/-- What the module holds itself: nothing of the slots, and the proc root if there is one. -/
structure OwnHoldings (common : Set Resource) (procRoot : Bool) : Prop where
  own : ∀ r ∈ common, ¬ r.OfSlot
  root : procRoot = true → Resource.procRoot ∈ common

/-- The holdings are those of the module and of its slots, each slot having its own. -/
structure Stocked (common : Set Resource) (s : Platform) (held : Set Resource) : Prop where
  mine : OwnHoldings common s.procRoot
  owned : Owned common (fun index : Fin ambaPciDevMax => (s.devs index).holds index.val) held
  named : ∀ index, (s.devs index).procDir = true →
    (s.devs index).procName = some index.val ∧ s.procRoot = true
  slots : ∀ index, SlotSound (s.devs index)

variable {common held : Set Resource} {s s' : Platform} {slot : Fin ambaPciDevMax} {pdev : PciDev}

/-- What the module and the other slots hold. -/
def Platform.restHolds (s : Platform) (common : Set Resource) (slot : Fin ambaPciDevMax) :
    Set Resource :=
  common ∪ others (fun index : Fin ambaPciDevMax => (s.devs index).holds index.val) slot

theorem Stocked.accounts (stocked : Stocked common s held) (slot : Fin ambaPciDevMax) :
    SlotAccounts (s.restHolds common slot) s.procRoot slot.val (s.devs slot) held :=
  ⟨stocked.owned.split slot, stocked.named slot⟩

/-- A section leaves its slot accounted for, and the other slots alone. -/
theorem Stocked.setDev (stocked : Stocked common s held) {e' : Entry} {held' : Set Resource}
    (accounts : SlotAccounts (s.restHolds common slot) s.procRoot slot.val e' held')
    (valid : SlotSound e') (devs : s'.devs = (s.setDev slot e').devs)
    (root : s'.procRoot = s.procRoot) : Stocked common s' held' where
  mine := by
    rw [root]
    exact stocked.mine
  owned := by
    rw [devs]
    apply stocked.owned.join slot
    · intro other away
      rw [Platform.setDev_other s slot other e' away]
    · rw [Platform.setDev_same]
      exact accounts.accounts
  named index made := by
    rw [root]
    rw [devs] at made ⊢
    by_cases same : index = slot
    · subst same
      rw [Platform.setDev_same] at made ⊢
      exact accounts.named made
    · rw [Platform.setDev_other s slot index e' same] at made ⊢
      exact stocked.named index made
  slots index := by
    rw [devs]
    by_cases same : index = slot
    · subst same
      rw [Platform.setDev_same]
      exact valid
    · rw [Platform.setDev_other s slot index e' same]
      exact stocked.slots index

theorem OwnHoldings.rest_root (mine : OwnHoldings common s.procRoot) (present : s.procRoot = true) :
    Resource.procRoot ∈ s.restHolds common slot := Or.inl (mine.root present)

/-- No other slot has a directory of this slot's name. -/
theorem OwnHoldings.rest_procDir (mine : OwnHoldings common s.procRoot) :
    Resource.procDir (some slot.val) ∉ s.restHolds common slot := by
  rintro (shared | ⟨other, away, mapping | dir⟩)
  · exact mine.own _ shared trivial
  · cases found : (s.devs other).bootMemBase with
    | none =>
        rw [found] at mapping
        exact mapping
    | some base =>
        rw [found] at mapping
        cases Set.mem_singleton_iff.mp mapping
  · cases made : (s.devs other).procDir with
    | false =>
        rw [made] at dir
        exact dir
    | true =>
        rw [made] at dir
        have names := Set.mem_singleton_iff.mp dir
        simp only [Resource.procDir.injEq, Option.some.injEq] at names
        exact away (Fin.ext names.symm)

theorem pcieInitSlot_accounts (pdev : PciDev) (free : (s.devs slot).inUse = false)
    (stocked : Stocked common s held) :
    slotLedger.Ensures (fun made held' =>
      SlotAccounts (s.restHolds common slot) s.procRoot slot.val (made.2.devs slot) held')
      (pcieInitSlot pdev slot s) held := by
  obtain ⟨-, unmapped, bare, -⟩ := (stocked.slots slot).unused free
  have nodes := pcieCreateProcNodes_accounts stocked.mine.rest_root stocked.mine.rest_procDir bare
    (stocked.accounts slot)
  apply ensures_seq (wp_returns nodes)
  rintro ⟨ret, e₁⟩ held₁ ⟨ended, returned⟩
  have unmapped₁ : e₁.bootMemBase = none := by
    rcases pcieCreateProcNodes_returns returned with ⟨-, rfl⟩ | ⟨-, -, rfl | ⟨name, rfl⟩⟩
    · exact unmapped
    · exact unmapped
    · exact unmapped
  dsimp only at ended ⊢
  split
  · apply ensures_done
    rw [Platform.setDev_same]
    exact ended
  · apply ensures_borrow (unlisted_borrows rfl rfl (fun _ => rfl) rfl); intro _
    apply ensures_done
    have same : ∀ (id : BitVec 32) (e : Entry),
        (Platform.devs { s.setDev slot e with nextDevId := id } slot) = e := fun _ e =>
      Platform.setDev_same s slot e
    rw [same]
    exact ended.congr unmapped₁.symm rfl rfl

theorem pcieHandleAddLocked_accounts (found : getPciSlotId pdev = some slot)
    (stocked : Stocked common s held) :
    slotLedger.Ensures (fun s' held' =>
      SlotAccounts (s.restHolds common slot) s.procRoot slot.val (s'.devs slot) held')
      (pcieHandleAddLocked pdev s) held := by
  have before := stocked.accounts slot
  unfold pcieHandleAddLocked
  rw [found]
  dsimp only
  split
  · split
    · exact ensures_done before
    · split
      · apply ensures_borrow (unlisted_borrows rfl rfl (fun _ => rfl) rfl); intro _
        apply ensures_done
        rw [Platform.setDev_same]
        exact before.congr rfl rfl rfl
      · exact ensures_done before
  · rename_i unused
    have made := pcieInitSlot_accounts pdev (by simpa using unused) stocked
    split
    · apply ensures_seq made
      rintro ⟨ret, s₁⟩ held₁ ended
      dsimp only at ended ⊢
      split
      · exact ensures_done ended
      · apply ensures_done
        rw [Platform.setDev_same]
        exact ended.congr rfl rfl rfl
    · split
      · apply ensures_seq made
        intro result held₁ ended
        exact ensures_done ended
      · exact ensures_done before

theorem pcieHandleAddLocked_stocked (pdev : PciDev) (stocked : Stocked common s held) :
    slotLedger.Ensures (fun s' held' => Stocked common s' held')
      (pcieHandleAddLocked pdev s) held := by
  cases found : getPciSlotId pdev with
  | none =>
      unfold pcieHandleAddLocked
      rw [found]
      exact ensures_done stocked
  | some slot =>
      apply wp_mono (wp_returns (pcieHandleAddLocked_accounts found stocked))
      rintro s' held' ⟨ended, returned⟩
      rcases pcieHandleAddLocked_returns returned with
        ⟨nowhere, -⟩ | ⟨index, e', found', outcome, devs, root⟩
      · rw [found] at nowhere
        cases nowhere
      · rw [found] at found'
        cases found'
        rw [devs, Platform.setDev_same] at ended
        exact stocked.setDev ended ((stocked.slots slot).added outcome) devs root

theorem pcieHandleDelLocked_stocked (pdev : PciDev) (stocked : Stocked common s held) :
    slotLedger.Ensures (fun s' held' => Stocked common s' held')
      (pcieHandleDelLocked pdev s) held := by
  unfold pcieHandleDelLocked
  split
  · exact ensures_done stocked
  · rename_i slot _
    have before := stocked.accounts slot
    have valid := stocked.slots slot
    split
    · exact ensures_done stocked
    · rename_i unfree
      have used : (s.devs slot).inUse = true := by simpa using unfree
      split
      · rename_i booting
        apply ensures_seq (wp_returns (pcieEntryDetachPdev_accounts before))
        rintro e' held' ⟨ended, returned⟩
        have outcome : DelOutcome (s.devs slot) e' :=
          pcieEntryDetachPdev_returns returned ▸ .detached used booting
        exact ensures_done (stocked.setDev ended (valid.removed outcome) rfl rfl)
      · rename_i settled
        apply ensures_seq (wp_returns
          (pcieReleaseDev_accounts stocked.mine.rest_root valid.mapped before))
        rintro e' held' ⟨ended, returned⟩
        have left := pcieReleaseDev_returns returned
        rw [if_pos used] at left
        have outcome : DelOutcome (s.devs slot) e' := left ▸ .released used settled
        exact ensures_done (stocked.setDev ended (valid.removed outcome) rfl rfl)

/-- A refresh of one entry, by a query or a read of `dev_info`. -/
theorem Stocked.refreshed {e' : Entry} {held' : Set Resource} (stocked : Stocked common s held)
    (accounts : SlotAccounts (s.restHolds common slot) s.procRoot slot.val e' held')
    (change : Refreshes (s.devs slot) e') (idle : (s.devs slot).inUse = false → e' = s.devs slot) :
    Stocked common (s.setDev slot e') held' :=
  stocked.setDev accounts ((stocked.slots slot).refreshed change idle) rfl rfl

theorem queryDevs_stocked (slots : List (Fin ambaPciDevMax)) (stocked : Stocked common s held) :
    slotLedger.Ensures (fun result held' => Stocked common result.2 held') (queryDevs slots s)
      held := by
  induction slots generalizing s held with
  | nil => exact ensures_done stocked
  | cons slot rest ih =>
      apply ensures_seq (wp_returns
        (pcieQueryDevInfoLocked_accounts slot.val (stocked.accounts slot)))
      rintro ⟨info, e'⟩ held₁ ⟨ended, returned⟩
      obtain ⟨change, idle⟩ := pcieQueryDevInfoLocked_returns returned
      apply ensures_seq (ih (stocked.refreshed ended change idle))
      intro later held₂ ended₂
      exact ensures_done ended₂

theorem handleAdds_stocked (pdevs : List PciDev) (stocked : Stocked common s held) :
    slotLedger.Ensures (fun s' held' => Stocked common s' held')
      (handleAdds pdevs s) held := by
  induction pdevs generalizing s held with
  | nil => exact ensures_done stocked
  | cons pdev rest ih =>
      apply ensures_seq (pcieHandleAddLocked_stocked pdev stocked)
      intro s₁ held₁ stocked₁
      exact ih stocked₁

theorem pcieEnumerateExistedDevs_stocked (present : List PciDev)
    (stocked : Stocked common s held) :
    slotLedger.Ensures (fun s' held' => Stocked common s' held')
      (pcieEnumerateExistedDevs present s) held := by
  rw [pcieEnumerateExistedDevs, enumerateSlots_eq]
  exact handleAdds_stocked _ stocked

/-- Slot by slot, the devices are released. -/
theorem releaseDevs_stocked (slots : List (Fin ambaPciDevMax)) (done : List (Fin ambaPciDevMax))
    (stocked : Stocked common s held) (free : ∀ slot ∈ done, (s.devs slot).inUse = false) :
    slotLedger.Ensures (fun s' held' => Stocked common s' held' ∧
      ∀ slot, slot ∈ done ∨ slot ∈ slots → (s'.devs slot).inUse = false)
      (releaseDevs slots s) held := by
  induction slots generalizing s held done with
  | nil =>
      apply ensures_done
      refine ⟨stocked, ?_⟩
      rintro slot (inside | impossible)
      · exact free slot inside
      · cases impossible
  | cons slot rest ih =>
      have valid := stocked.slots slot
      apply ensures_seq (wp_returns
        (pcieReleaseDev_accounts stocked.mine.rest_root valid.mapped (stocked.accounts slot)))
      rintro e' held₁ ⟨ended, returned⟩
      have left := pcieReleaseDev_returns returned
      have outcome : SlotSound e' ∧ e'.inUse = false := by
        rw [left]
        split
        · exact ⟨.released _, rfl⟩
        · rename_i unused
          exact ⟨valid, by simpa using unused⟩
      have stocked₁ : Stocked common (s.setDev slot e') held₁ :=
        stocked.setDev ended outcome.1 rfl rfl
      have free₁ : ∀ other ∈ slot :: done, ((s.setDev slot e').devs other).inUse = false := by
        intro other inside
        by_cases same : other = slot
        · rw [same, Platform.setDev_same]
          exact outcome.2
        · rw [Platform.setDev_other s slot other e' same]
          exact free other (List.mem_of_ne_of_mem same inside)
      apply wp_mono (ih (slot :: done) stocked₁ free₁)
      rintro s' held' ⟨stocked', all⟩
      refine ⟨stocked', ?_⟩
      rintro other (inside | inside)
      · exact all other (Or.inl (List.mem_cons_of_mem slot inside))
      · cases inside with
        | head => exact all slot (Or.inl List.mem_cons_self)
        | tail _ later => exact all other (Or.inr later)

/-- With no slot in use, the module holds only what it holds itself. -/
theorem Stocked.free (stocked : Stocked common s held)
    (free : ∀ slot, (s.devs slot).inUse = false) : held = common := by
  have nothing : ∀ slot : Fin ambaPciDevMax, (s.devs slot).holds slot.val = ∅ := by
    intro slot
    obtain ⟨-, unmapped, bare, -⟩ := (stocked.slots slot).unused (free slot)
    rw [Entry.holds, unmapped, bare]
    exact Set.union_empty ∅
  rw [stocked.owned.whole]
  simp only [nothing, Set.iUnion_empty, Set.union_empty]

theorem ambaPciPlatformExitLocked_stocked (stocked : Stocked common s held) :
    slotLedger.Ensures (fun s' held' => Stocked common s' held' ∧
      ∀ slot, (s'.devs slot).inUse = false) (ambaPciPlatformExitLocked s) held := by
  apply ensures_seq (releaseDevs_stocked (List.finRange ambaPciDevMax) [] stocked
    fun slot impossible => nomatch impossible)
  rintro s' held' ⟨stocked', all⟩
  apply ensures_done
  constructor
  · exact ⟨stocked'.mine, stocked'.owned, stocked'.named, stocked'.slots⟩
  · exact fun slot => all slot (Or.inr (List.mem_finRange slot))

/-! The sections of the loaded driver -/

/-- A section comes to an operation. -/
inductive SectionCall {σ : Type} (M : Machine Op Op.Reply σ) (t : Timing) (s : Platform) (w : σ) :
    Event → Op → σ → Prop
  | add {pdev : PciDev} {op : Op} {next : op.Reply → Host Platform} {w' : σ}
      (ran : M.Steps (pciePciBusNotify .addDevice pdev s, w) (.call op next, w')) :
      SectionCall M t s w (.add pdev) op w'
  | del {pdev : PciDev} {op : Op} {next : op.Reply → Host Platform} {w' : σ}
      (ran : M.Steps (pciePciBusNotify .delDevice pdev s, w) (.call op next, w')) :
      SectionCall M t s w (.del pdev) op w'
  | query {op : Op} {next : op.Reply → Host (List DevInfo × Platform)} {w' : σ}
      (ran : M.Steps (pcieQueryPlatformInfoLocked s, w) (.call op next, w')) :
      SectionCall M t s w .query op w'
  | devInfo {index : Fin ambaPciDevMax} {op : Op} {next : op.Reply → Host (DevInfo × Platform)}
      {w' : σ} (ran : M.Steps (pcieDevInfoReadLocked index s, w) (.call op next, w')) :
      SectionCall M t s w (.devInfo index) op w'
  | xferFirmware {req : FwXfer} {index : Fin ambaPciDevMax} {ret : Int} {op : Op}
      {next : op.Reply → Host (Int × Entry)} {w' : σ}
      (ran : M.Steps (pcieXferFirmwareLocked t req (s.devs index), w) (.call op next, w')) :
      SectionCall M t s w (.xferFirmware req index ret) op w'

variable {t : Timing} {event : Event} {held' : Set Resource}

theorem pcieDevInfoReadLocked_stocked (index : Fin ambaPciDevMax)
    (stocked : Stocked common s held) :
    slotLedger.Ensures (fun result held' => Stocked common result.2 held')
      (pcieDevInfoReadLocked index s) held := by
  apply ensures_seq (wp_returns
    (pcieQueryDevInfoLocked_accounts index.val (stocked.accounts index)))
  rintro ⟨info, e'⟩ held₁ ⟨ended, returned⟩
  obtain ⟨change, idle⟩ := pcieQueryDevInfoLocked_returns returned
  exact ensures_done (stocked.refreshed ended change idle)

/-- In every section an operation only uses what is held then, and gives back what is held. -/
theorem SectionCall.ready {op : Op} (call : SectionCall slotLedger.machine t s held event op held')
    (stocked : Stocked common s held) : slotLedger.Ready held' op := by
  cases call with
  | add ran => exact wp_guard (pcieHandleAddLocked_stocked _ stocked) ran
  | del ran => exact wp_guard (pcieHandleDelLocked_stocked _ stocked) ran
  | query ran => exact wp_guard (queryDevs_stocked _ stocked) ran
  | devInfo ran => exact wp_guard (pcieDevInfoReadLocked_stocked _ stocked) ran
  | @xferFirmware req index ret op next w' ran =>
      exact wp_guard (pcieXferFirmwareLocked_accounts t req (stocked.accounts index)) ran

/-- A step that touches no mapping and no proc directory. -/
theorem Stocked.moved {e' : Entry} (stocked : Stocked common s held)
    (mapping : e'.bootMemBase = (s.devs slot).bootMemBase)
    (dir : e'.procDir = (s.devs slot).procDir) (name : e'.procName = (s.devs slot).procName)
    (valid : SlotSound e') : Stocked common (s.setDev slot e') held :=
  stocked.setDev ((stocked.accounts slot).congr mapping dir name) valid rfl rfl

/-- The step lemma: whatever section runs, each slot still has its own holdings. -/
theorem Stocked.step (stocked : Stocked common s held)
    (step : SectionStep slotLedger.machine t (s, held) event (s', held')) :
    Stocked common s' held' := by
  have valid : ∀ index, SlotSound (s'.devs index) := fun index =>
    EntryMoves.keep (fun _ _ move valid => valid.move move) (step.locked.moves index)
      (stocked.slots index)
  cases step with
  | add ran => exact wp_post (pcieHandleAddLocked_stocked _ stocked) ran
  | del ran => exact wp_post (pcieHandleDelLocked_stocked _ stocked) ran
  | query ran => exact wp_post (queryDevs_stocked _ stocked) ran
  | devInfo ran => exact wp_post (pcieDevInfoReadLocked_stocked _ stocked) ran
  | @xferFirmware _ _ _ req index ret e' accepted addressed ran =>
      have ended := wp_post (pcieXferFirmwareLocked_accounts t req (stocked.accounts index)) ran
      have slot := valid index
      rw [Platform.setDev_same] at slot
      exact stocked.setDev ended slot rfl rfl
  | @reboot _ _ index =>
      have slot := valid index
      rw [Platform.setDev_same] at slot
      have kept : ∀ e : Entry, (pcieRebootLocked e).2.bootMemBase = e.bootMemBase ∧
          (pcieRebootLocked e).2.procDir = e.procDir ∧
          (pcieRebootLocked e).2.procName = e.procName := by
        intro e
        unfold pcieRebootLocked
        split
        · exact ⟨rfl, rfl, rfl⟩
        · split
          · exact ⟨rfl, rfl, rfl⟩
          · exact ⟨rfl, rfl, rfl⟩
      obtain ⟨mapping, dir, name⟩ := kept (s.devs index)
      exact stocked.moved mapping dir name slot
  | @timerExpires _ _ index armed =>
      have slot := valid index
      rw [Platform.setDev_same] at slot
      exact stocked.moved rfl rfl rfl slot
  | @workStarts _ _ index queued returned =>
      have slot := valid index
      rw [Platform.setDev_same] at slot
      exact stocked.moved rfl rfl rfl slot
  | @workRuns _ _ index started =>
      have slot := valid index
      rw [Platform.setDev_same] at slot
      apply stocked.moved _ _ _ slot
      all_goals
        unfold pcieBootTimeoutFn
        split
        · rfl
        · rfl

end AmbaPci

import Mathlib.Algebra.BigOperators.Ring.Finset
import AmbaPci.HotplugRules
import AmbaPci.LoadAgreement
import AmbaPci.RingAccesses
import AmbaPci.SlotSections
import AmbaPci.XferRules

set_option autoImplicit false

/- The references the driver holds on PCI devices, against the slot entries that name them. -/
namespace AmbaPci

open Interaction Interaction.Prog Interaction.Machine

/-- For each device, the `pci_dev_get` calls minus the `pci_dev_put` calls. -/
abbrev Refs := PciDev → Int

def countRef (refs : Refs) : Op → Refs
  | .pciDevGet pdev => Function.update refs pdev (refs pdev + 1)
  | .pciDevPut pdev => Function.update refs pdev (refs pdev - 1)
  | _ => refs

/-- Every operation replies as it likes; references are counted. -/
def refMachine : Machine Op Op.Reply Refs where
  answer refs op _ refs' := refs' = countRef refs op
  interfere _ _ := False

theorem refMachine_stable (assertion : Refs → Prop) : refMachine.Stable assertion :=
  fun _ _ _ impossible => nomatch impossible

/-- The slot entries whose `pdev` is the device. -/
def holders (s : Platform) (d : PciDev) : Finset (Fin ambaPciDevMax) :=
  Finset.univ.filter fun index => (s.devs index).pdev = some d

/-- One reference for each slot entry that names the device. -/
def Balanced (s : Platform) (refs : Refs) : Prop := ∀ d, refs d = ((holders s d).card : Int)

/-- The reference one entry accounts for. -/
def held (e : Entry) (d : PciDev) : Int := if e.pdev = some d then 1 else 0

theorem holders_card (s : Platform) (d : PciDev) :
    ((holders s d).card : Int) = ∑ index, held (s.devs index) d := by
  simp only [holders, held, Finset.sum_boole]

theorem sum_held_setDev (s : Platform) (index : Fin ambaPciDevMax) (e' : Entry) (d : PciDev) :
    ∑ other, held ((s.setDev index e').devs other) d =
      ∑ other, held (s.devs other) d - held (s.devs index) d + held e' d := by
  have others : ∑ other ∈ Finset.univ.erase index, held ((s.setDev index e').devs other) d =
      ∑ other ∈ Finset.univ.erase index, held (s.devs other) d := by
    apply Finset.sum_congr rfl
    intro other inside
    rw [Platform.setDev_other s index other e' (Finset.ne_of_mem_erase inside)]
  have before := Finset.add_sum_erase Finset.univ (fun other => held (s.devs other) d)
    (Finset.mem_univ index)
  have after := Finset.add_sum_erase Finset.univ
    (fun other => held ((s.setDev index e').devs other) d) (Finset.mem_univ index)
  simp only [Platform.setDev_same] at before after
  omega

/-- The references of an entry change as the device it names does. -/
def Settles (e : Entry) (refs : Refs) (e' : Entry) (refs' : Refs) : Prop :=
  ∀ d, refs' d - held e' d = refs d - held e d

variable {s s' : Platform} {e e' : Entry} {refs refs' : Refs} {index : Fin ambaPciDevMax}

theorem Settles.same (pdev : e'.pdev = e.pdev) : Settles e refs e' refs := by
  intro d
  rw [held, pdev, held]

theorem Settles.attached {pdev : PciDev} (free : e.pdev = none) (now : e'.pdev = some pdev) :
    Settles e refs e' (countRef refs (.pciDevGet pdev)) := by
  intro d
  simp only [held, free, now, countRef, Option.some.injEq, reduceCtorEq, if_false]
  by_cases same : pdev = d
  · subst same
    simp
  · rw [Function.update_of_ne (Ne.symm same), if_neg same]

theorem Settles.detached {pdev : PciDev} (attached : e.pdev = some pdev) (now : e'.pdev = none) :
    Settles e refs e' (countRef refs (.pciDevPut pdev)) := by
  intro d
  simp only [held, attached, now, countRef, Option.some.injEq, reduceCtorEq, if_false]
  by_cases same : pdev = d
  · subst same
    simp
  · rw [Function.update_of_ne (Ne.symm same), if_neg same]

theorem Balanced.setDev (balanced : Balanced s refs)
    (settles : Settles (s.devs index) refs e' refs') : Balanced (s.setDev index e') refs' := by
  intro d
  have before := balanced d
  have change := settles d
  rw [holders_card] at before ⊢
  rw [sum_held_setDev]
  omega

theorem Balanced.congr (balanced : Balanced s refs)
    (same : ∀ index, (s'.devs index).pdev = (s.devs index).pdev) : Balanced s' refs := by
  intro d
  rw [balanced d, holders, holders]
  simp only [same]

/-- A reference is taken on the device that an entry without one gets. -/
theorem Balanced.attached {pdev : PciDev} (balanced : Balanced s refs)
    (free : (s.devs index).pdev = none) (devs : s'.devs = (s.setDev index e').devs)
    (now : e'.pdev = some pdev) : Balanced s' (countRef refs (.pciDevGet pdev)) := by
  apply (balanced.setDev (Settles.attached free now)).congr
  intro other
  rw [devs]

/-- The reference on a device that is overwritten is counted on. -/
theorem Balanced.overwritten {old pdev : PciDev} (balanced : Balanced s refs)
    (attached : (s.devs index).pdev = some old) (devs : s'.devs = (s.setDev index e').devs)
    (now : e'.pdev = some pdev) : ¬ Balanced s' (countRef refs (.pciDevGet pdev)) := by
  intro claim
  have before := balanced old
  have after := claim old
  rw [holders_card] at before after
  simp only [devs] at after
  have lost : held (s.devs index) old = 1 := if_pos attached
  rw [sum_held_setDev, lost, ← before, held, now, countRef] at after
  by_cases same : pdev = old
  · subst same
    rw [Function.update_self, if_pos rfl] at after
    omega
  · rw [Function.update_of_ne (Ne.symm same), if_neg (by simpa using same)] at after
    omega

/-! Sections that take and drop no reference -/

/-- An operation that is neither `pci_dev_get` nor `pci_dev_put`. -/
def Op.Borrows : Op → Prop
  | .pciDevGet _ => False
  | .pciDevPut _ => False
  | _ => True

theorem Op.Borrows.count {op : Op} (borrows : op.Borrows) (refs : Refs) :
    countRef refs op = refs := by
  cases op with
  | pciDevGet | pciDevPut => exact borrows.elim
  | _ => rfl

theorem Op.Prepares.borrows {op : Op} (prepares : op.Prepares) : op.Borrows := by
  cases op with
  | pciDevGet | pciDevPut => exact prepares.elim
  | _ => trivial

theorem Op.Transfers.borrows {op : Op} (transfers : op.Transfers) : op.Borrows := by
  rcases transfers with prepares | sends | stuck
  · exact prepares.borrows
  · cases op with
    | pciDevGet | pciDevPut => exact sends.1.elim
    | _ => trivial
  · subst stuck
    trivial

theorem Op.ProcFile.borrows {op : Op} (procFile : op.ProcFile) : op.Borrows := by
  cases op with
  | pciDevGet | pciDevPut => exact procFile.elim
  | _ => trivial

/-- No guard: every operation may be called. -/
abbrev anyCall : Refs → Op → Prop := fun _ _ => True

theorem borrows_wp {α : Type} {program : Host α} (calls : program.Calls Op.Borrows) (refs : Refs) :
    refMachine.wp anyCall
      (fun value refs' => refs' = refs ∧ Returns (fun _ _ => True) program value) program refs := by
  apply wp_returns
  apply wp_calls (refMachine_stable (· = refs)) (fun _ _ _ _ => trivial) ?_ calls rfl
  intro refs₁ op reply refs₂ borrows here answered
  have counted : refs₂ = countRef refs₁ op := answered
  rw [counted, borrows.count, here]

/-! Sections that do -/

theorem pcieEntryDetachPdev_refs (e : Entry) (refs : Refs) :
    refMachine.wp anyCall (fun e' refs' => Settles e refs e' refs') (pcieEntryDetachPdev e)
      refs := by
  unfold pcieEntryDetachPdev
  split
  · exact wp_done (refMachine_stable (· = refs)) rfl fun _ here => here ▸ .same rfl
  · rename_i pdev attached
    have unmap : (pcieBootBarUnmap pdev e).Calls Op.Borrows := by
      unfold pcieBootBarUnmap
      split
      · trivial
      · exact Calls.perform trivial fun _ => trivial
    apply wp_seq (borrows_wp unmap refs)
    intro e₁ refs₁ unmapped
    rw [unmapped.1]
    apply wp_perform (refMachine_stable (· = refs)) rfl (fun _ _ => trivial)
    intro refs₂ _ refs₃ here put
    have counted : refs₃ = countRef refs₂ (.pciDevPut pdev) := put
    rw [counted, here]
    exact wp_done (refMachine_stable (· = countRef refs (.pciDevPut pdev))) rfl fun _ here' =>
      here' ▸ .detached attached rfl

theorem releaseProcNodes_refs (e : Entry) (refs : Refs) :
    refMachine.wp anyCall (fun e' refs' => refs' = refs ∧ e'.pdev = e.pdev) (releaseProcNodes e)
      refs := by
  unfold releaseProcNodes
  split
  · have removal := (removeProcSubtree_calls e.procName).mono fun _ => Op.ProcFile.borrows
    apply wp_seq (borrows_wp removal refs)
    intro _ refs₁ kept
    exact wp_done (refMachine_stable (· = refs)) kept.1 fun _ here => ⟨here, rfl⟩
  · exact wp_done (refMachine_stable (· = refs)) rfl fun _ here => ⟨here, rfl⟩

theorem pcieReleaseDev_refs (e : Entry) (refs : Refs) :
    refMachine.wp anyCall (fun e' refs' => Settles e refs e' refs') (pcieReleaseDev e) refs := by
  unfold pcieReleaseDev
  split
  · exact wp_done (refMachine_stable (· = refs)) rfl fun _ here => here ▸ .same rfl
  · apply wp_seq (pcieEntryDetachPdev_refs e refs)
    intro e₁ refs₁ settles
    apply wp_seq (releaseProcNodes_refs _ refs₁)
    intro e₂ refs₂ kept
    refine wp_done (refMachine_stable (· = refs₁)) kept.1 fun refs₃ here d => ?_
    have change := settles d
    have same : e₂.pdev = e₁.pdev := kept.2
    rw [here, held, same]
    exact change

theorem pcieHandleDelLocked_refs (pdev : PciDev) (balanced : Balanced s refs) :
    refMachine.wp anyCall (fun s' refs' => Balanced s' refs') (pcieHandleDelLocked pdev s)
      refs := by
  have unchanged : refMachine.wp anyCall (fun s' refs' => Balanced s' refs') (.done s) refs :=
    wp_done (refMachine_stable (Balanced s)) balanced fun _ here => here
  have stored : ∀ index e' refs', Settles (s.devs index) refs e' refs' →
      refMachine.wp anyCall (fun s' refs' => Balanced s' refs') (.done (s.setDev index e'))
        refs' :=
    fun index e' refs' settles => wp_done (refMachine_stable (Balanced (s.setDev index e')))
      (balanced.setDev settles) fun _ here => here
  unfold pcieHandleDelLocked
  split
  · exact unchanged
  · rename_i slotId _
    split
    · exact unchanged
    · split
      · exact wp_seq (pcieEntryDetachPdev_refs _ refs) fun e' refs' => stored slotId e' refs'
      · exact wp_seq (pcieReleaseDev_refs _ refs) fun e' refs' => stored slotId e' refs'

theorem pcieInitSlot_refs (pdev : PciDev) (balanced : Balanced s refs)
    (free : (s.devs index).pdev = none) :
    refMachine.wp anyCall (fun made refs' => Balanced made.2 refs') (pcieInitSlot pdev index s)
      refs := by
  have nodes := (pcieCreateProcNodes_calls s.procRoot (s.devs index) index.val).mono
    fun _ => Op.ProcFile.borrows
  apply wp_seq (borrows_wp nodes refs)
  rintro ⟨ret, e⟩ refs₁ ⟨kept, returned⟩
  have bare : e.pdev = none := by
    rcases pcieCreateProcNodes_returns returned with ⟨-, rfl⟩ | ⟨-, -, rfl | ⟨name, rfl⟩⟩
    · exact free
    · exact free
    · exact free
  rw [kept]
  dsimp only
  split
  · have stored : Balanced (s.setDev index e) refs :=
      balanced.setDev (.same (bare.trans free.symm))
    exact wp_done (refMachine_stable (Balanced (s.setDev index e))) stored fun _ here => here
  · apply wp_perform (refMachine_stable (· = refs)) rfl (fun _ _ => trivial)
    intro refs₂ _ refs₃ here got
    have counted : refs₃ = countRef refs₂ (.pciDevGet pdev) := got
    rw [counted, here]
    refine wp_done (refMachine_stable (· = countRef refs (.pciDevGet pdev))) rfl fun _ here' => ?_
    rw [here']
    exact balanced.attached free rfl rfl

/-- The ADD that gives a BOOTING slot its device back finds the slot without one. -/
def ReconnectsDetached (s : Platform) : Event → Prop
  | .add pdev => ∀ index, getPciSlotId pdev = some index → (s.devs index).inUse = true →
      (s.devs index).state = .booting → isVirtioCard pdev = true → (s.devs index).pdev = none
  | _ => True

instance (s : Platform) (event : Event) : Decidable (ReconnectsDetached s event) :=
  match event with
  | .add pdev =>
      inferInstanceAs (Decidable (∀ index, getPciSlotId pdev = some index →
        (s.devs index).inUse = true → (s.devs index).state = .booting →
        isVirtioCard pdev = true → (s.devs index).pdev = none))
  | .del _ | .enumerate _ | .query | .devInfo _ | .xferFirmware _ _ _ | .reboot _
  | .timerExpires _ | .workStarts _ | .workRuns _ => inferInstanceAs (Decidable True)

theorem pcieHandleAddLocked_refs {pdev : PciDev} (balanced : Balanced s refs)
    (bare : ∀ index, (s.devs index).inUse = false → (s.devs index).pdev = none)
    (met : ReconnectsDetached s (.add pdev)) :
    refMachine.wp anyCall (fun s' refs' => Balanced s' refs') (pcieHandleAddLocked pdev s)
      refs := by
  have unchanged : refMachine.wp anyCall (fun s' refs' => Balanced s' refs') (.done s) refs :=
    wp_done (refMachine_stable (Balanced s)) balanced fun _ here => here
  unfold pcieHandleAddLocked
  split
  · exact unchanged
  · rename_i slotId found
    split
    · rename_i used
      split
      · exact unchanged
      · rename_i booting
        split
        · rename_i card
          have free := met slotId found used (Decidable.not_not.mp booting) card
          apply wp_perform (refMachine_stable (· = refs)) rfl (fun _ _ => trivial)
          intro refs₁ _ refs₂ here got
          have counted : refs₂ = countRef refs₁ (.pciDevGet pdev) := got
          rw [counted, here]
          refine wp_done (refMachine_stable (· = countRef refs (.pciDevGet pdev))) rfl
            fun _ here' => ?_
          rw [here']
          exact balanced.attached free rfl rfl
        · exact unchanged
    · rename_i unused
      have free := bare slotId (by simpa using unused)
      have made := pcieInitSlot_refs pdev balanced free
      split
      · apply wp_seq made
        rintro ⟨ret, s₁⟩ refs₁ here
        dsimp only
        split
        · exact wp_done (refMachine_stable (Balanced s₁)) here fun _ here' => here'
        · refine wp_done (refMachine_stable (Balanced s₁)) here fun refs₂ here' => ?_
          exact here'.setDev (.same rfl)
      · split
        · apply wp_seq made
          intro initialized refs₁ here
          exact wp_done (refMachine_stable (Balanced initialized.2)) here fun _ here' => here'
        · exact unchanged

/-! Runs -/

/-- The runs of the loaded driver whose steps all meet a condition on the table before them, with
the references counted from module init on. -/
inductive RefRun (t : Timing) (meets : Platform → Event → Prop) : Platform → Refs → Prop
  | load {present : List PciDev} {procRoot : Bool} {s : Platform} {refs : Refs}
      (ran : refMachine.Steps (pcieEnumerateExistedDevs present (platformInit procRoot), fun _ => 0)
        (.done s, refs)) : RefRun t meets s refs
  | step {s s' : Platform} {refs refs' : Refs} {event : Event} (before : RefRun t meets s refs)
      (met : meets s event) (step : SectionStep refMachine t (s, refs) event (s', refs')) :
      RefRun t meets s' refs'

variable {t : Timing} {event : Event}

theorem RefRun.reachable {meets : Platform → Event → Prop} (run : RefRun t meets s refs) :
    Reachable anyReply t s := by
  induction run with
  | @load present procRoot s refs ran =>
      exact (Reachable.init procRoot).step (.enumerate ran.returns)
  | step before met step ih => exact ih.step step.locked

theorem Reachable.bare (reachable : Reachable anyReply t s) (index : Fin ambaPciDevMax)
    (free : (s.devs index).inUse = false) : (s.devs index).pdev = none :=
  ((reachable.slotInvariant index).unused free).1

/-- The step lemma. -/
theorem SectionStep.balanced (step : SectionStep refMachine t (s, refs) event (s', refs'))
    (reachable : Reachable anyReply t s) (met : ReconnectsDetached s event)
    (balanced : Balanced s refs) : Balanced s' refs' := by
  cases step with
  | add ran => exact wp_post (pcieHandleAddLocked_refs balanced reachable.bare met) ran
  | @del _ _ _ _ pdev ran => exact wp_post (pcieHandleDelLocked_refs pdev balanced) ran
  | query ran =>
      have query := (queryDevs_calls (List.finRange ambaPciDevMax) s).mono
        fun _ => Op.Prepares.borrows
      have kept := (wp_post (borrows_wp query refs) ran).1
      rw [kept]
      exact balanced.congr fun index =>
        queryDevs_keep (fun e => e.pdev = (s.devs index).pdev)
          (fun change _ same => change.pdev.trans same) _ ran.returns rfl
  | @devInfo _ _ _ _ index info ran =>
      have calls := (pcieDevInfoReadLocked_calls index s).mono fun _ => Op.Prepares.borrows
      have kept := (wp_post (borrows_wp calls refs) ran).1
      obtain ⟨⟨info, e'⟩, first, returned⟩ := (returns_bind_iff _ _ _).mp ran.returns
      cases (returns_done_iff _ _).mp returned
      rw [kept]
      exact balanced.setDev (.same (pcieQueryDevInfoLocked_returns first).1.pdev)
  | @xferFirmware _ _ _ req index ret e' accepted addressed ran =>
      have transfers := (pcieXferFirmwareLocked_calls t req (s.devs index)).mono
        fun _ => Op.Transfers.borrows
      have kept := (wp_post (borrows_wp transfers refs) ran).1
      rw [kept]
      rcases pcieXferFirmwareLocked_returns ran.returns with
        ⟨-, change, -⟩ | ⟨-, -, -, -, mapped, change, rfl⟩
      · exact balanced.setDev (.same change.pdev)
      · exact balanced.setDev (.same change.pdev)
  | @reboot _ _ index =>
      refine balanced.setDev (.same ?_)
      unfold pcieRebootLocked
      split
      · rfl
      · split
        · rfl
        · rfl
  | timerExpires armed => exact balanced.setDev (.same rfl)
  | workStarts queued returned => exact balanced.setDev (.same rfl)
  | @workRuns _ _ index started =>
      refine balanced.setDev (.same ?_)
      unfold pcieBootTimeoutFn
      split
      · rfl
      · rfl

/-- An ADD that breaks the condition leaves a reference that no entry accounts for. -/
theorem SectionStep.unbalanced (step : SectionStep refMachine t (s, refs) event (s', refs'))
    (balanced : Balanced s refs) (unmet : ¬ ReconnectsDetached s event) : ¬ Balanced s' refs' := by
  cases step with
  | @add _ _ _ _ pdev ran =>
      simp only [ReconnectsDetached, Classical.not_forall] at unmet
      obtain ⟨slotId, found, used, booting, card, attached⟩ := unmet
      obtain ⟨old, attached⟩ := Option.ne_none_iff_exists'.mp attached
      have reconnected : refMachine.wp anyCall (fun s' refs' => ¬ Balanced s' refs')
          (pcieHandleAddLocked pdev s) refs := by
        unfold pcieHandleAddLocked
        rw [found]
        dsimp only
        rw [if_pos used, if_neg (Decidable.not_not.mpr booting), if_pos card]
        apply wp_perform (refMachine_stable (· = refs)) rfl (fun _ _ => trivial)
        intro refs₁ _ refs₂ here got
        have counted : refs₂ = countRef refs₁ (.pciDevGet pdev) := got
        rw [counted, here]
        refine wp_done (refMachine_stable (· = countRef refs (.pciDevGet pdev))) rfl
          fun _ here' => ?_
        rw [here']
        exact balanced.overwritten attached rfl rfl
      exact wp_post reconnected ran
  | _ => exact absurd trivial unmet

theorem handleAdds_refs (pdevs : List PciDev) (reachable : Reachable anyReply t s)
    (balanced : Balanced s refs) (unbooted : ∀ pdev ∈ pdevs, isVirtioCard pdev = false) :
    refMachine.wp anyCall (fun s' refs' => Balanced s' refs') (handleAdds pdevs s) refs := by
  induction pdevs generalizing s refs with
  | nil => exact wp_done (refMachine_stable (Balanced s)) balanced fun _ here => here
  | cons pdev rest ih =>
      have met : ReconnectsDetached s (.add pdev) := by
        intro index _ _ _ card
        rw [unbooted pdev List.mem_cons_self] at card
        cases card
      apply wp_seq (wp_returns (pcieHandleAddLocked_refs balanced reachable.bare met))
      intro s₁ refs₁ added
      have step : LockedStep anyReply t s (.add pdev) s₁ := .add added.2
      exact ih (reachable.step step) added.1 fun other later =>
        unbooted other (List.mem_cons_of_mem _ later)

/-- The module's own scan, which looks for boot ROMs only. -/
theorem pcieEnumerateExistedDevs_refs (present : List PciDev) (procRoot : Bool) :
    refMachine.wp anyCall (fun s' refs' => Balanced s' refs')
      (pcieEnumerateExistedDevs present (platformInit procRoot)) fun _ => 0 := by
  rw [pcieEnumerateExistedDevs_eq]
  have initial : Reachable anyReply ⟨0, 0⟩ (platformInit procRoot) := .init procRoot
  apply handleAdds_refs (scanned present) initial
  · intro d
    rw [holders_card, Finset.sum_eq_zero]
    exact fun index _ => if_neg (by simp [platformInit])
  · intro pdev inside
    cases card : isVirtioCard pdev with
    | false => rfl
    | true =>
        have rom := ((mem_scanned_iff present pdev).mp inside).2.1
        exact absurd rom (not_isBootRom_of_virtio card)

/-- The run lemma. -/
theorem RefRun.balanced (run : RefRun t ReconnectsDetached s refs) : Balanced s refs := by
  induction run with
  | @load present procRoot s refs ran =>
      exact wp_post (pcieEnumerateExistedDevs_refs present procRoot) ran
  | step before met step ih => exact step.balanced before.reachable met ih

theorem releaseDevs_refs (slots : List (Fin ambaPciDevMax)) (balanced : Balanced s refs)
    (bare : ∀ index, (s.devs index).inUse = false → (s.devs index).pdev = none)
    (left : ∀ index, index ∉ slots → (s.devs index).pdev = none) :
    refMachine.wp anyCall (fun s' refs' => Balanced s' refs' ∧ ∀ index, (s'.devs index).pdev = none)
      (releaseDevs slots s) refs := by
  induction slots generalizing s refs with
  | nil =>
      refine wp_done (refMachine_stable (Balanced s)) balanced fun _ here => ⟨here, ?_⟩
      exact fun index => left index List.not_mem_nil
  | cons slot rest ih =>
      apply wp_seq (wp_returns (pcieReleaseDev_refs (s.devs slot) refs))
      intro e' refs₁ freed
      have after : e' = if (s.devs slot).inUse then released (s.devs slot) else s.devs slot :=
        pcieReleaseDev_returns freed.2
      have none : e'.pdev = none := by
        rw [after]
        split
        · rfl
        · rename_i unused
          exact bare slot (by simpa using unused)
      have others : ∀ index, index ≠ slot → (s.setDev slot e').devs index = s.devs index :=
        fun index apart => Platform.setDev_other s slot index e' apart
      apply ih (balanced.setDev freed.1)
      · intro index free
        by_cases same : index = slot
        · rw [same, Platform.setDev_same]
          exact none
        · rw [others index same] at free ⊢
          exact bare index free
      · intro index outside
        by_cases same : index = slot
        · rw [same, Platform.setDev_same]
          exact none
        · rw [others index same]
          apply left
          simp [same, outside]

/-- Module exit gives every reference back. -/
theorem ambaPciPlatformExitLocked_refs (balanced : Balanced s refs)
    (bare : ∀ index, (s.devs index).inUse = false → (s.devs index).pdev = none) :
    refMachine.wp anyCall (fun _ refs' => ∀ d, refs' d = 0) (ambaPciPlatformExitLocked s) refs := by
  apply wp_seq (releaseDevs_refs (List.finRange ambaPciDevMax) balanced bare fun index outside =>
    absurd (List.mem_finRange index) outside)
  rintro s₁ refs₁ ⟨balanced, freed⟩
  refine wp_done (refMachine_stable (Balanced s₁)) balanced fun refs₂ here d => ?_
  rw [here d, holders_card]
  apply Finset.sum_eq_zero
  intro index _
  rw [held, freed index]
  rfl

/-- In the runs in which a BOOTING slot gets its device back only after it has lost the old one,
the driver holds one reference for each entry that names a device, and none after module exit. The
first ADD that breaks the condition breaks the balance. -/
theorem reference_balance (t : Timing) (s : Platform) (refs : Refs)
    (run : RefRun t ReconnectsDetached s refs) :
    (∀ d, refs d = ((holders s d).card : Int)) ∧
    (∀ s' refs', refMachine.Steps (ambaPciPlatformExitLocked s, refs) (.done s', refs') →
      ∀ d, refs' d = 0) ∧
    ∀ event s' refs', SectionStep refMachine t (s, refs) event (s', refs') →
      ((∀ d, refs' d = ((holders s' d).card : Int)) ↔ ReconnectsDetached s event) := by
  have balanced := run.balanced
  have bare := run.reachable.bare
  refine ⟨balanced, fun s' refs' exits => ?_, fun event s' refs' step => ?_⟩
  · exact wp_post (ambaPciPlatformExitLocked_refs balanced bare) exits
  · constructor
    · intro kept
      by_cases met : ReconnectsDetached s event
      · exact met
      · exact absurd kept (step.unbalanced balanced met)
    · exact fun met => step.balanced run.reachable met balanced

/-- The counted kernel in which nothing fails. -/
def refDriver : Driver Op Op.Reply Refs Empty where
  answer refs op := (promptReply op).map fun reply => (reply, countRef refs op)
  interfere impossible := nomatch impossible

theorem refDriver_sound : refDriver.Sound refMachine where
  answer refs op reply refs' answered := by
    obtain ⟨reply', -, same⟩ := Option.map_eq_some_iff.mp answered
    cases same
    rfl
  interfere impossible := nomatch impossible

/-- The table and the references after a list of events that all meet the condition. -/
def driveRefs (meets : Platform → Event → Prop) [∀ s event, Decidable (meets s event)]
    (t : Timing) : List Event → Platform × Refs → Option (Platform × Refs)
  | [], config => some config
  | event :: rest, config =>
      if meets config.1 event then
        match driveSection refDriver t config event with
        | none => none
        | some config' => driveRefs meets t rest config'
      else none

theorem driveRefs_run {meets : Platform → Event → Prop} [∀ s event, Decidable (meets s event)]
    (events : List Event) (run : RefRun t meets s refs)
    (driven : driveRefs meets t events (s, refs) = some (s', refs')) : RefRun t meets s' refs' := by
  induction events generalizing s refs with
  | nil =>
      cases driven
      exact run
  | cons event rest ih =>
      simp only [driveRefs, Option.ite_none_right_eq_some] at driven
      obtain ⟨met, driven⟩ := driven
      split at driven
      · cases driven
      · rename_i config first
        exact ih (run.step met (driveSection_step refDriver_sound first)) driven

theorem RefRun.empty (t : Timing) (meets : Platform → Event → Prop) :
    RefRun t meets (platformInit true) fun _ => 0 := by
  have scanned : refDriver.eval (pcieEnumerateExistedDevs [] (platformInit true)) (fun _ => 0) =
      some (platformInit true, fun _ => 0) := by rfl
  exact .load (refDriver_sound.eval scanned)

/-- Where a list of events ends, from module init without a card. -/
def refsAfter (meets : Platform → Event → Prop) [∀ s event, Decidable (meets s event)]
    (events : List Event) : Platform × Refs :=
  (driveRefs meets ⟨1000, 1⟩ events (platformInit true, fun _ => 0)).getD
    (platformInit true, fun _ => 0)

theorem refsAfter_run (meets : Platform → Event → Prop) [∀ s event, Decidable (meets s event)]
    (events : List Event) (ran : (driveRefs meets ⟨1000, 1⟩ events
      (platformInit true, fun _ => 0)).isSome = true) :
    RefRun ⟨1000, 1⟩ meets (refsAfter meets events).1 (refsAfter meets events).2 := by
  obtain ⟨⟨s, refs⟩, found⟩ := Option.isSome_iff_exists.mp ran
  simp only [refsAfter, found, Option.getD_some]
  exact driveRefs_run events (.empty _ meets) found

/-- The card boots, leaves and comes back. -/
def returnEvents : List Event :=
  bootEvents ++ [.del (cardAt 1 1 ambaPciTargetDeviceId), .add (cardAt 2 1 ambaPciVirtioDeviceId)]

/-- The card comes back before it has left. -/
def overtakingEvents : List Event := bootEvents ++ [.add (cardAt 2 1 ambaPciVirtioDeviceId)]

theorem reference_balance_return :
    (refsAfter ReconnectsDetached returnEvents).2 (cardAt 2 1 ambaPciVirtioDeviceId) =
      ((holders (refsAfter ReconnectsDetached returnEvents).1
        (cardAt 2 1 ambaPciVirtioDeviceId)).card : Int) := by
  have run : RefRun ⟨1000, 1⟩ ReconnectsDetached (refsAfter ReconnectsDetached returnEvents).1
      (refsAfter ReconnectsDetached returnEvents).2 :=
    refsAfter_run ReconnectsDetached returnEvents (by decide +kernel)
  exact (reference_balance ⟨1000, 1⟩ _ _ run).1 (cardAt 2 1 ambaPciVirtioDeviceId)

/-- The reference on the device that was attached while the slot was BOOTING is lost. -/
theorem reference_balance_overtaken : ¬ ∀ t s refs, RefRun t (fun _ _ => True) s refs →
    ∀ d, refs d = ((holders s d).card : Int) := by
  intro claim
  have run : RefRun ⟨1000, 1⟩ (fun _ _ => True) (refsAfter (fun _ _ => True) overtakingEvents).1
      (refsAfter (fun _ _ => True) overtakingEvents).2 :=
    refsAfter_run (fun _ _ => True) overtakingEvents (by decide +kernel)
  have lost := claim ⟨1000, 1⟩ _ _ run (cardAt 1 1 ambaPciTargetDeviceId)
  revert lost
  decide +kernel

end AmbaPci

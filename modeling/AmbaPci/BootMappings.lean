import AmbaPci.DeviceRefs

set_option autoImplicit false

/- What the driver does to each device, from `pci_dev_get` to `pci_dev_put`, against the boot
mapping of the slot entry that names it. -/
namespace AmbaPci

open Interaction Interaction.Prog Interaction.Machine

inductive DevAction
  | got
  | mapped (bar : Int) (length : BitVec 64) (base : Mapping)
  | unmapped (base : Mapping)
  | put
  deriving DecidableEq, Repr

/-- For each device what was done to it, the newest first. -/
abbrev Histories := PciDev → List DevAction

def Histories.push (hist : Histories) (pdev : PciDev) (action : DevAction) : Histories :=
  Function.update hist pdev (action :: hist pdev)

@[simp] theorem Histories.push_same (hist : Histories) (pdev : PciDev) (action : DevAction) :
    hist.push pdev action pdev = action :: hist pdev := Function.update_self ..

theorem Histories.push_other (hist : Histories) {pdev other : PciDev} (action : DevAction)
    (apart : other ≠ pdev) : hist.push pdev action other = hist other :=
  Function.update_of_ne apart ..

def recorded (hist : Histories) : (op : Op) → op.Reply → Histories
  | .pciDevGet pdev, _ => hist.push pdev .got
  | .pciIomap pdev bar length, some base => hist.push pdev (.mapped bar length base)
  | .pciIounmap pdev base, _ => hist.push pdev (.unmapped base)
  | .pciDevPut pdev, _ => hist.push pdev .put
  | _, _ => hist

/-- Every operation replies as it likes. -/
abbrev historyMachine : Machine Op Op.Reply Histories := track recorded

/-- Every attachment is over: with at most one mapping, which was undone before the device was
put. -/
inductive Closed : List DevAction → Prop
  | nil : Closed []
  | unmapped {earlier : List DevAction} (before : Closed earlier) : Closed (.put :: .got :: earlier)
  | mapped {bar : Int} {length : BitVec 64} {base : Mapping} {earlier : List DevAction}
      (before : Closed earlier) :
      Closed (.put :: .unmapped base :: .mapped bar length base :: .got :: earlier)

/-! The boot BAR -/

/-- The first memory BAR of nonzero length. -/
structure FirstMemBar (pdev : PciDev) (bar : Fin pciStdNumBars) : Prop where
  mem : (pdev.bars.get bar).mem = true
  length : pciResourceLen pdev bar ≠ 0
  first : ∀ lower < bar, (pdev.bars.get lower).mem = true → pciResourceLen pdev lower = 0

theorem firstMemBar_of_find {pdev : PciDev} {bar : Fin pciStdNumBars}
    (found : pcieBootBarFind pdev = some bar) : FirstMemBar pdev bar := by
  unfold pcieBootBarFind at found
  have here := List.find?_some found
  simp only [Bool.and_eq_true, bne_iff_ne, ne_eq] at here
  refine ⟨here.1, here.2, fun lower below mem => ?_⟩
  obtain ⟨-, before, after, split, missed⟩ := List.find?_eq_some_iff_append.mp found
  have sorted := List.pairwise_lt_finRange pciStdNumBars
  have inside : lower ∈ before := by
    have member := List.mem_finRange lower
    rw [split, List.mem_append, List.mem_cons] at member
    rcases member with early | rfl | late
    · exact early
    · exact absurd below (lt_irrefl _)
    · rw [split, List.pairwise_append, List.pairwise_cons] at sorted
      exact absurd (sorted.2.1.1 lower late) (not_lt_of_gt below)
  have other := missed lower inside
  simp only [mem, Bool.true_and, Bool.not_eq_eq_eq_not, Bool.not_true, bne_eq_false_iff_eq] at other
  exact other

/-- The cache names the boot BAR of the device. -/
def BarKnown (pdev : PciDev) (e : Entry) : Prop :=
  ∃ bar, pcieBootBarFind pdev = some bar ∧ e.bootBar = (bar.val : Int) ∧
    e.bootLen = pciResourceLen pdev bar

/-- The cache names the boot BAR of the device, or is looked up before it is used. -/
def BarUsable (pdev : PciDev) (e : Entry) : Prop :=
  (e.bootBar < 0 ∨ e.bootLen = 0) ∨ BarKnown pdev e

/-! Attempts to map it -/

/-- An operation that leaves the histories as they are. -/
def Op.Unrecorded (op : Op) : Prop := ∀ hist reply, recorded hist op reply = hist

theorem unrecorded_wp {α : Type} {program : Host α} (calls : program.Calls Op.Unrecorded)
    (hist : Histories) :
    historyMachine.wp (fun _ _ => True) (fun _ hist' => hist' = hist) program hist := by
  apply wp_calls (track_stable (· = hist)) (fun _ _ _ _ => trivial) ?_ calls rfl
  intro hist₁ op reply hist₂ unrecorded here answered
  have moved : hist₂ = recorded hist₁ op reply := answered
  rw [moved, unrecorded, here]

theorem history_done {α : Type} {post : α → Histories → Prop} {value : α} {hist : Histories}
    (holds : post value hist) : historyMachine.wp (fun _ _ => True) post (.done value) hist :=
  (track_done_iff value hist).mpr holds

theorem history_perform {β : Type} {post : β → Histories → Prop} {op : Op}
    {next : op.Reply → Host β} {hist : Histories} (rest : ∀ reply,
      historyMachine.wp (fun _ _ => True) post (next reply) (recorded hist op reply)) :
    historyMachine.wp (fun _ _ => True) post (perform op >>= next) hist :=
  (track_call_iff op next hist).mpr ⟨trivial, rest⟩

/-- How an attempt ends that started from `e` without a mapping. -/
inductive MapOutcome (pdev : PciDev) (e : Entry) (hist : Histories) :
    Int × Entry → Histories → Prop
  | failed {ret : Int} {e' : Entry} (nonzero : ret ≠ 0) (unmapped : e'.bootMemBase = none)
      (usable : BarUsable pdev e → BarUsable pdev e') : MapOutcome pdev e hist (ret, e') hist
  | mapped {e' : Entry} {base : Mapping} (made : e'.bootMemBase = some base)
      (known : BarUsable pdev e → BarKnown pdev e') :
      MapOutcome pdev e hist (0, e') (hist.push pdev (.mapped e'.bootBar e'.bootLen base))

theorem MapOutcome.zero_iff {pdev : PciDev} {e : Entry} {hist hist' : Histories}
    {result : Int × Entry} (outcome : MapOutcome pdev e hist result hist') :
    result.1 = 0 ↔ result.2.bootMemBase.isSome = true := by
  cases outcome with
  | failed nonzero unmapped usable => simp [nonzero, unmapped]
  | mapped made known => simp [made]

theorem pcieEnableMemIoResource_unrecorded (pdev : PciDev) :
    (pcieEnableMemIoResource pdev).Calls Op.Unrecorded := by
  apply Calls.perform (fun _ _ => rfl); intro err
  split
  · trivial
  · apply Calls.perform (fun _ _ => rfl); intro _
    apply Calls.perform (fun _ _ => rfl); intro err
    split
    · trivial
    · apply Calls.perform (fun _ _ => rfl); intro _
      apply Calls.perform (fun _ _ => rfl); intro err
      split
      · trivial
      · exact Calls.perform (fun _ _ => rfl) fun _ => trivial

theorem pcieMapFoundBar_outcome {pdev : PciDev} {e₀ e : Entry} (hist : Histories)
    (unmapped : e.bootMemBase = none) (known : BarUsable pdev e₀ → BarKnown pdev e) :
    historyMachine.wp (fun _ _ => True) (MapOutcome pdev e₀ hist) (pcieMapFoundBar pdev e)
      hist := by
  have usable : BarUsable pdev e₀ → BarUsable pdev e := fun before => Or.inr (known before)
  apply history_perform
  intro res
  split
  · exact history_done (.failed (show -enxio ≠ 0 by decide) unmapped usable)
  · apply wp_seq (unrecorded_wp (pcieEnableMemIoResource_unrecorded pdev) hist)
    intro ret hist₁ same
    rw [same]
    split
    · rename_i nonzero
      exact history_done (.failed nonzero unmapped usable)
    · apply history_perform
      intro base
      cases base with
      | none => exact history_done (.failed (show -eio ≠ 0 by decide) rfl usable)
      | some base => exact history_done (.mapped rfl known)

theorem pcieMapBootBar_outcome (pdev : PciDev) {e : Entry} (hist : Histories)
    (unmapped : e.bootMemBase = none) :
    historyMachine.wp (fun _ _ => True) (MapOutcome pdev e hist) (pcieMapBootBar pdev e) hist := by
  unfold pcieMapBootBar
  split
  · split
    · exact history_done (.failed (show -enxio ≠ 0 by decide) unmapped id)
    · rename_i bar found
      apply pcieMapFoundBar_outcome hist
      · exact unmapped
      · exact fun _ => ⟨bar, found, rfl, rfl⟩
  · rename_i cached
    apply pcieMapFoundBar_outcome hist unmapped
    exact fun usable => usable.resolve_left cached

/-- The retry loop: with no attempt left the last result must already be a failure. -/
theorem pcieBootBarMapRetry_outcome (pdev : PciDev) (attempts : Nat) {last : Int} {e : Entry}
    (hist : Histories) (failed : attempts = 0 → last ≠ 0) (unmapped : e.bootMemBase = none) :
    historyMachine.wp (fun _ _ => True) (MapOutcome pdev e hist)
      (pcieBootBarMapRetry pdev attempts last e) hist := by
  induction attempts generalizing last e with
  | zero => exact history_done (.failed (failed rfl) unmapped id)
  | succ attempts ih =>
      apply wp_seq (pcieMapBootBar_outcome pdev hist unmapped)
      intro result hist₁ outcome
      cases outcome with
      | mapped made known =>
          dsimp only
          rw [if_pos rfl]
          exact history_done (.mapped made known)
      | @failed ret e' nonzero unmapped' usable =>
          dsimp only
          rw [if_neg nonzero]
          split
          · exact history_done (.failed nonzero unmapped' usable)
          · apply history_perform
            intro _
            apply wp_mono (ih (fun _ => nonzero) unmapped')
            intro result hist' later
            cases later with
            | failed nonzero unmapped'' usable' =>
                exact .failed nonzero unmapped'' fun here => usable' (usable here)
            | mapped made known => exact .mapped made fun here => known (usable here)

/-- The wait for an assigned BAR ends in `-ETIMEDOUT`. -/
theorem pcieBootBarEnsureMapped_outcome (pdev : PciDev) {e : Entry} (hist : Histories)
    (unmapped : e.bootMemBase = none) :
    historyMachine.wp (fun _ _ => True)
      (fun result hist' => MapOutcome pdev e hist result hist' ∧ result.1 ≠ -enxio)
      (pcieBootBarEnsureMapped pdev e) hist := by
  unfold pcieBootBarEnsureMapped
  rw [if_neg (by simp [unmapped])]
  apply wp_seq (pcieBootBarMapRetry_outcome pdev pcieBootBarMapRetryMax hist (by decide) unmapped)
  intro result hist₁ outcome
  cases outcome with
  | mapped made known =>
      dsimp only
      rw [if_neg (by decide)]
      exact history_done ⟨.mapped made known, show (0 : Int) ≠ -enxio by decide⟩
  | failed nonzero unmapped' usable =>
      dsimp only
      split
      · exact history_done ⟨.failed (show -etimedout ≠ 0 by decide) unmapped' usable,
          show -etimedout ≠ -enxio by decide⟩
      · rename_i other
        exact history_done ⟨.failed nonzero unmapped' usable, other⟩

theorem pcieBootBarEnsureMapped_zero_iff (pdev : PciDev) (e : Entry) (hist : Histories) :
    historyMachine.wp (fun _ _ => True)
      (fun result _ => (result.1 = 0 ↔ result.2.bootMemBase.isSome = true) ∧ result.1 ≠ -enxio)
      (pcieBootBarEnsureMapped pdev e) hist := by
  cases present : e.bootMemBase with
  | none =>
      apply wp_mono (pcieBootBarEnsureMapped_outcome pdev hist present)
      intro result hist' ended
      exact ⟨ended.1.zero_iff, ended.2⟩
  | some base =>
      unfold pcieBootBarEnsureMapped
      rw [if_pos (by simp [present])]
      exact history_done ⟨by simp [present], show (0 : Int) ≠ -enxio by decide⟩

/-! One slot entry -/

/-- The entry of a slot beside the histories. -/
structure SlotRecord (e : Entry) (hist : Histories) : Prop where
  bare : e.pdev = none → e.bootMemBase = none
  attached : ∀ pdev, e.pdev = some pdev → e.bootMemBase = none →
    ∃ earlier, Closed earlier ∧ hist pdev = .got :: earlier
  mapped : ∀ pdev base, e.pdev = some pdev → e.bootMemBase = some base →
    BarKnown pdev e ∧ ∃ earlier, Closed earlier ∧
      hist pdev = .mapped e.bootBar e.bootLen base :: .got :: earlier
  usable : ∀ pdev, e.pdev = some pdev → e.state = .disconnected → BarUsable pdev e

/-- What a section does to an entry and the histories: those of devices it neither attaches nor
detaches stay, and of those it detaches every attachment is over. -/
structure Records (e : Entry) (hist : Histories) (e' : Entry) (hist' : Histories) : Prop where
  slot : SlotRecord e' hist'
  closed : ∀ pdev, e.pdev = some pdev → e'.pdev ≠ some pdev → Closed (hist' pdev)
  others : ∀ pdev, e.pdev ≠ some pdev → e'.pdev ≠ some pdev → hist' pdev = hist pdev

variable {s s' : Platform} {e e' : Entry} {hist hist' : Histories} {index : Fin ambaPciDevMax}

theorem SlotRecord.frame (record : SlotRecord e hist)
    (kept : ∀ pdev, e.pdev = some pdev → hist' pdev = hist pdev) : SlotRecord e hist' where
  bare := record.bare
  attached pdev here unmapped := by
    rw [kept pdev here]
    exact record.attached pdev here unmapped
  mapped pdev base here made := by
    rw [kept pdev here]
    exact record.mapped pdev base here made
  usable := record.usable

/-- The fields that tie an entry to the histories, and a state it can only leave DISCONNECTED
for. -/
theorem SlotRecord.congr (record : SlotRecord e hist) (pdev : e'.pdev = e.pdev)
    (base : e'.bootMemBase = e.bootMemBase) (bar : e'.bootBar = e.bootBar)
    (length : e'.bootLen = e.bootLen) (state : e'.state = .disconnected → e.state = .disconnected) :
    SlotRecord e' hist := by
  have known : ∀ d, BarKnown d e → BarKnown d e' := by
    intro d here
    unfold BarKnown at here ⊢
    rw [bar, length]
    exact here
  constructor
  · rw [pdev, base]
    exact record.bare
  · rw [pdev, base]
    exact record.attached
  · rw [pdev, base, bar, length]
    exact fun d made here live => ⟨known d (record.mapped d made here live).1,
      (record.mapped d made here live).2⟩
  · intro d here idle
    have before := record.usable d (pdev ▸ here) (state idle)
    unfold BarUsable at before ⊢
    rw [bar, length]
    exact before.imp_right (known d)

/-- A section that attaches and detaches nothing. -/
theorem Records.kept (slot : SlotRecord e' hist') (pdev : e'.pdev = e.pdev)
    (others : ∀ d, e.pdev ≠ some d → hist' d = hist d) : Records e hist e' hist' where
  slot := slot
  closed _ here gone := absurd (pdev.trans here) gone
  others d apart _ := others d apart

theorem MapOutcome.records {pdev : PciDev} {ret : Int} (record : SlotRecord e hist)
    (attached : e.pdev = some pdev) (unmapped : e.bootMemBase = none)
    (idle : e.state = .disconnected) (change : Refreshes e e')
    (outcome : MapOutcome pdev e hist (ret, e') hist') : Records e hist e' hist' := by
  have here : ∀ d, e'.pdev = some d → d = pdev := by
    intro d named
    rw [change.pdev, attached] at named
    exact (Option.some.inj named).symm
  have usable := record.usable pdev attached idle
  obtain ⟨earlier, closed, past⟩ := record.attached pdev attached unmapped
  cases outcome with
  | failed nonzero unmapped' usable' =>
      apply Records.kept _ change.pdev fun _ _ => rfl
      constructor
      · exact fun _ => unmapped'
      · intro d named _
        rw [here d named]
        exact ⟨earlier, closed, past⟩
      · intro d base _ live
        rw [unmapped'] at live
        cases live
      · intro d named _
        rw [here d named]
        exact usable' usable
  | @mapped _ base made known =>
      apply Records.kept _ change.pdev
      · intro d apart
        apply Histories.push_other
        intro same
        rw [same] at apart
        exact apart attached
      constructor
      · intro bare
        rw [change.pdev, attached] at bare
        cases bare
      · intro d _ unmapped'
        rw [made] at unmapped'
        cases unmapped'
      · intro d _ named live
        rw [made] at live
        cases live
        rw [here d named, Histories.push_same, past]
        exact ⟨known usable, earlier, closed, rfl⟩
      · intro d named _
        rw [here d named]
        exact Or.inr (known usable)

/-- The operations on the ring are not recorded. -/
theorem Op.Sends.unrecorded {op : Op} (sends : op.Sends) : op.Unrecorded := by
  cases op with
  | pciDevGet | pciDevPut | pciIomap | pciIounmap => exact sends.elim
  | _ => exact fun _ _ => rfl

theorem Op.ProcFile.unrecorded {op : Op} (procFile : op.ProcFile) : op.Unrecorded := by
  cases op with
  | pciDevGet | pciDevPut | pciIomap | pciIounmap => exact procFile.elim
  | _ => exact fun _ _ => rfl

theorem refreshBootMapping_records {pdev : PciDev} (record : SlotRecord e hist)
    (attached : e.pdev = some pdev) (idle : e.state = .disconnected) :
    historyMachine.wp (fun _ _ => True) (fun result hist' => Records e hist result.2 hist')
      (refreshBootMapping pdev e) hist := by
  unfold refreshBootMapping
  split
  · rename_i unmapped
    have unmapped : e.bootMemBase = none := by simpa using unmapped
    apply wp_mono (wp_returns (pcieBootBarEnsureMapped_outcome pdev hist unmapped))
    intro result hist' ended
    have change := (pcieBootBarEnsureMapped_returns attached ended.2).1
    exact MapOutcome.records record attached unmapped idle change ended.1.1
  · exact history_done (.kept record rfl fun _ _ => rfl)

theorem pcieDevRefreshBoardInfoLocked_records (record : SlotRecord e hist) :
    historyMachine.wp (fun _ _ => True) (fun result hist' => Records e hist result.2 hist')
      (pcieDevRefreshBoardInfoLocked e) hist := by
  have unchanged : Records e hist e hist := .kept record rfl fun _ _ => rfl
  unfold pcieDevRefreshBoardInfoLocked
  split
  · exact history_done unchanged
  · rename_i idle
    split
    · exact history_done unchanged
    · rename_i pdev attached
      apply wp_seq (refreshBootMapping_records record attached (Decidable.not_not.mp idle))
      intro result hist₁ records
      obtain ⟨ret, e₁⟩ := result
      dsimp only at records ⊢
      split
      · exact history_done records
      · split
        · rename_i base _ _
          have reads : (pcieRingReadBoardInfo base).Calls (RingAccess base rhDesc0Off rhDesc0Off) :=
            pcieRingReadBoardInfo_accesses
          have read := reads.mono fun _ access => access.registers.1.unrecorded
          apply wp_seq (unrecorded_wp read hist₁)
          intro bd hist₂ same
          rw [same]
          apply history_done
          exact ⟨records.slot.congr rfl rfl rfl rfl id, records.closed, records.others⟩
        · exact history_done records

theorem pcieQueryDevInfoLocked_records (slot : Nat) (record : SlotRecord e hist) :
    historyMachine.wp (fun _ _ => True) (fun result hist' => Records e hist result.2 hist')
      (pcieQueryDevInfoLocked e slot) hist := by
  unfold pcieQueryDevInfoLocked
  dsimp only
  split
  · exact history_done (.kept record rfl fun _ _ => rfl)
  · apply wp_seq (pcieDevRefreshBoardInfoLocked_records record)
    intro result hist₁ records
    exact history_done records

theorem xferImages_unrecorded (t : Timing) (base : Mapping) (ringMapSize : BitVec 64)
    (req : FwXfer) (types : List (BitVec 32)) :
    (xferImages t base ringMapSize req types).Calls Op.Unrecorded := by
  induction types with
  | nil => trivial
  | cons type rest ih =>
      unfold xferImages
      split
      · exact ⟨fun _ impossible => (nomatch impossible), fun impossible => nomatch impossible⟩
      · rename_i img _
        have sends := pcieRingXferUser_sends t base ringMapSize req.fwUserPtr img
        apply Calls.bind (sends.mono fun _ => Op.Sends.unrecorded); intro ret
        split
        · trivial
        · exact ih

theorem xferToEp_unrecorded (t : Timing) (base : Mapping) (ringMapSize : BitVec 64)
    (req : FwXfer) : (xferToEp t base ringMapSize req).Calls Op.Unrecorded := by
  have ready : (pcieRingWaitEpReady t base).Calls (RingAccess base rhDesc0Off rhDesc0Off) :=
    pcieRingWaitEpReady_accesses t
  apply Calls.bind (ready.mono fun _ access => access.registers.1.unrecorded); intro ret
  split
  · trivial
  · exact xferImages_unrecorded t base ringMapSize req pcieFwXferOrder

theorem pcieXferFirmwareLocked_records (t : Timing) (req : FwXfer) (record : SlotRecord e hist) :
    historyMachine.wp (fun _ _ => True) (fun result hist' => Records e hist result.2 hist')
      (pcieXferFirmwareLocked t req e) hist := by
  have unchanged : Records e hist e hist := .kept record rfl fun _ _ => rfl
  unfold pcieXferFirmwareLocked
  split
  · exact history_done unchanged
  · split
    · exact history_done unchanged
    · apply wp_seq (pcieDevRefreshBoardInfoLocked_records record)
      intro result hist₁ records
      obtain ⟨ret, e₁⟩ := result
      dsimp only at records ⊢
      split
      · exact history_done records
      · split
        · rename_i pdev base _ _
          apply history_perform; intro _
          apply wp_seq (unrecorded_wp (xferToEp_unrecorded t base e₁.bootLen req) hist₁)
          intro sent hist₂ same
          rw [same]
          split
          · exact history_done records
          · apply history_done
            have slot : SlotRecord (pcieBootTimeoutSchedule { e₁ with state := .booting }) hist₁ :=
              records.slot.congr rfl rfl rfl rfl fun impossible => nomatch impossible
            exact ⟨slot, records.closed, records.others⟩
        · apply history_perform
          intro impossible
          exact nomatch impossible

/-! Attaching and detaching -/

/-- The device is unmapped where it is mapped, and put. -/
theorem pcieEntryDetachPdev_records (record : SlotRecord e hist) :
    historyMachine.wp (fun _ _ => True)
      (fun e' hist' => Records e hist e' hist' ∧ e' = detached e) (pcieEntryDetachPdev e) hist := by
  apply wp_mono (wp_returns ?_)
  · intro e' hist' ended
    exact ⟨ended.1, pcieEntryDetachPdev_returns ended.2⟩
  unfold pcieEntryDetachPdev
  split
  · exact history_done (.kept record rfl fun _ _ => rfl)
  · rename_i pdev attached
    have closes : ∀ {e₁ : Entry} {hist₁ : Histories}, e₁.bootMemBase = none →
        Closed (.put :: hist₁ pdev) → (∀ d, d ≠ pdev → hist₁ d = hist d) →
        Records e hist { e₁ with pdev := none } (hist₁.push pdev .put) := by
      intro e₁ hist₁ unmapped closed others
      refine ⟨⟨fun _ => unmapped, ?_, ?_, ?_⟩, fun d here _ => ?_, fun d apart _ => ?_⟩
      · exact fun _ none => nomatch none
      · exact fun _ _ none => nomatch none
      · exact fun _ none => nomatch none
      · rw [attached] at here
        rw [← Option.some.inj here, Histories.push_same]
        exact closed
      · have other : d ≠ pdev := by
          intro same
          rw [same] at apart
          exact apart attached
        rw [Histories.push_other _ _ other, others d other]
    unfold pcieBootBarUnmap
    split
    · rename_i unmapped
      obtain ⟨earlier, closed, past⟩ := record.attached pdev attached unmapped
      apply history_perform; intro _
      apply history_done
      apply closes unmapped _ fun _ _ => rfl
      rw [past]
      exact .unmapped closed
    · rename_i base live
      obtain ⟨-, earlier, closed, past⟩ := record.mapped pdev base attached live
      apply history_perform; intro _
      apply history_perform; intro _
      apply history_done
      apply closes rfl
      · show Closed (.put :: hist.push pdev (.unmapped base) pdev)
        rw [Histories.push_same, past]
        exact .mapped closed
      · exact fun d other => Histories.push_other hist _ other

theorem pcieReleaseDev_records (record : SlotRecord e hist) :
    historyMachine.wp (fun _ _ => True)
      (fun e' hist' => Records e hist e' hist') (pcieReleaseDev e) hist := by
  unfold pcieReleaseDev
  split
  · exact history_done (.kept record rfl fun _ _ => rfl)
  · apply wp_seq (pcieEntryDetachPdev_records record)
    intro e₁ hist₁ ended
    have bare : e₁.pdev = none := by
      rw [ended.2]
      unfold detached
      split
      · rename_i none
        simpa using none
      · rfl
    have free : ∀ e₂ : Entry, e₂.pdev = e₁.pdev → e₂.bootMemBase = none →
        Records e hist e₂ hist₁ := by
      intro e₂ same unmapped
      have none : e₂.pdev = none := same.trans bare
      constructor
      · constructor
        · exact fun _ => unmapped
        · simp [none]
        · simp [none]
        · simp [none]
      · rw [same]
        exact ended.1.closed
      · rw [same]
        exact ended.1.others
    unfold releaseProcNodes
    split
    · have removal := (removeProcSubtree_calls e₁.procName).mono fun _ => Op.ProcFile.unrecorded
      apply wp_seq (unrecorded_wp removal hist₁)
      intro _ hist₂ same
      rw [same]
      exact history_done (free _ rfl rfl)
    · exact history_done (free _ rfl rfl)

end AmbaPci

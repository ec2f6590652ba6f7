import AmbaPci.ModuleLife

set_option autoImplicit false

/- No call of the module's own code waits forever: how it is answered, and what a new card does. -/
namespace AmbaPci

open Interaction Interaction.Machine Interaction.Ledger

variable {regs : Registrations} {w : ModuleWorld} {t : Timing} {users : Bool}
variable {index : Fin ambaPciDevMax} {s : Platform} {held : Set Resource}

/-! The sections that touch no register -/

/-- The kernel can always refuse. -/
theorem Op.Hotplugs.answered {op : Op} (hotplugs : op.Hotplugs) (held : Set Resource) :
    ∃ reply held', slotLedger.machine.answer held op reply held' := by
  cases op with
  | procMkdir | procCreateData => exact ⟨false, _, Set.empty_disjoint _, rfl⟩
  | procUnlink | procDrain | pciIounmap | pciDevPut | pciDevGet =>
      exact ⟨(), _, Set.empty_disjoint _, rfl⟩
  | _ => exact hotplugs.elim

theorem hotplugs_canReturn {α : Type} {program : Host α} (calls : program.Calls Op.Hotplugs)
    (held : Set Resource) : slotLedger.machine.CanReturn (fun _ _ => True) program held := by
  have ready : slotLedger.machine.wp (fun _ op => op.Hotplugs) (fun _ _ => True) program held :=
    wp_calls (stable fun _ => True) (fun _ _ here _ => here) (fun _ _ _ _ _ _ _ => trivial) calls
      trivial
  refine canReturn_of_wp (fun held' op hotplugs => ?_) ready
  obtain ⟨reply, held'', answered⟩ := hotplugs.answered held'
  exact ⟨held', reply, held'', .refl, answered⟩

theorem releaseDevs_calls (slots : List (Fin ambaPciDevMax)) (s : Platform) :
    (releaseDevs slots s).Calls Op.Hotplugs := by
  induction slots generalizing s with
  | nil => trivial
  | cons index rest ih => exact Prog.Calls.bind (pcieReleaseDev_calls _) fun e => ih _

theorem ambaPciPlatformExitLocked_calls (s : Platform) :
    (ambaPciPlatformExitLocked s).Calls Op.Hotplugs :=
  Prog.Calls.bind (releaseDevs_calls _ s) fun _ => trivial

/-! A new card -/

theorem createProcEntries_canReturn (name : Nat) (nodes : List ProcNode) (held : Set Resource) :
    slotLedger.machine.CanReturn (fun created _ => created = true) (createProcEntries name nodes)
      held := by
  induction nodes with
  | nil => exact canReturn_done rfl
  | cons node rest ih =>
      refine canReturn_perform true ⟨Set.empty_disjoint _, (after_same rfl rfl).symm⟩ ?_
      exact ih

theorem pcieCreateProcNodes_canReturn (e : Entry)
    (bare : Resource.procDir (some index.val) ∉ held) :
    slotLedger.machine.CanReturn (fun made _ => made.1 = 0)
      (pcieCreateProcNodes true e index.val) held := by
  refine canReturn_perform true ⟨Set.disjoint_singleton_left.mpr bare, rfl⟩ ?_
  apply canReturn_seq (createProcEntries_canReturn index.val pcieProcNodes _)
  rintro _ held' rfl
  exact canReturn_done rfl

/-- A card that runs its firmware can be taken into the unused slot of its bus. -/
theorem pcieHandleAddLocked_canReturn {pdev : PciDev} (slot : getPciSlotId pdev = some index)
    (card : isVirtioCard pdev = true) (unused : (s.devs index).inUse = false)
    (root : s.procRoot = true) (bare : Resource.procDir (some index.val) ∉ held) :
    slotLedger.machine.CanReturn
      (fun s' _ => (s'.devs index).inUse = true ∧ (s'.devs index).state = .connected)
      (pcieHandleAddLocked pdev s) held := by
  have made : slotLedger.machine.CanReturn
      (fun made _ => made.1 = 0 ∧ (made.2.devs index).inUse = true)
      (pcieInitSlot pdev index s) held := by
    unfold pcieInitSlot
    rw [root]
    apply canReturn_seq (pcieCreateProcNodes_canReturn (s.devs index) bare)
    rintro ⟨_, e⟩ held' rfl
    refine canReturn_perform () ⟨Set.empty_disjoint _, rfl⟩ ?_
    refine canReturn_done ⟨rfl, ?_⟩
    exact congrArg Entry.inUse (Platform.setDev_same s index _)
  unfold pcieHandleAddLocked
  simp only [slot, unused, card, Bool.false_eq_true, ↓reduceIte]
  apply canReturn_seq made
  rintro ⟨_, s'⟩ held' ⟨rfl, used⟩
  refine canReturn_done ?_
  rw [Platform.setDev_same]
  exact ⟨used, rfl⟩

/-! The calls of the module -/

theorem acquires_barred (op : ModuleOp) (reply : op.Reply) :
    moduleLedger.acquires op reply ⊆ moduleLedger.bars op := by
  have granted : ∀ (ret : KernelRet) (r : Resource), (if ret.val = 0 then {r} else ∅) ⊆
      ({r} : Set Resource) := by
    intro ret r
    split
    · exact Set.Subset.rfl
    · exact Set.empty_subset _
  cases op with
  | mutexInit => exact Set.Subset.rfl
  | allocChrdevRegion => exact granted reply .chrdev
  | cdevAdd => exact granted reply .cdev
  | busRegisterNotifier => exact granted reply .notifier
  | classCreate | deviceCreate =>
      cases reply with
      | none => exact Set.Subset.rfl
      | some err => exact Set.empty_subset _
  | procMkdir =>
      cases reply with
      | true => exact Set.Subset.rfl
      | false => exact Set.empty_subset _
  | _ => exact Set.empty_subset _

/-- What may be called is answered, and the kernel is free to grant or refuse. -/
theorem ModuleOp.Plain.answers {op : ModuleOp} (plain : op.Plain)
    (ready : moduleLedger.Ready w.held op) (reply : op.Reply) :
    ∃ w', moduleAnswer w op reply w' := by
  have free := ready.barred.mono_left (acquires_barred op reply)
  cases op with
  | pointer | cancelDelayedWorkSync | enumerateExistedDevs | releaseDevs => exact plain.elim
  | _ => exact ⟨_, free, rfl⟩

theorem calm_canReturn {α : Type} {post : α → ModuleWorld → Prop} (op : ModuleOp)
    (reply : op.Reply) {next : op.Reply → ModuleCode α} (calm : Calm regs w) (plain : op.Plain)
    (ready : moduleLedger.Ready regs.set op)
    (rest : ∀ w', Calm (regs.after op reply) w' →
      (moduleMachine t users).CanReturn post (next reply) w') :
    (moduleMachine t users).CanReturn post (op.perform >>= next) w := by
  have held := calm.held
  obtain ⟨w', answered⟩ := plain.answers (held ▸ ready) reply
  exact canReturn_perform reply answered (rest w' (calm.answered plain ready answered))

/-- The scan may find no device. -/
theorem scan_finds_nothing (w : ModuleWorld) : moduleAnswer w .enumerateExistedDevs () w := by
  have scanned : slotLedger.machine.Steps (pcieEnumerateExistedDevs [] w.table, w.held)
      (.done w.table, w.held) := by
    rw [pcieEnumerateExistedDevs, enumerateSlots_eq]
    exact .refl
  exact ⟨[], _, _, scanned, rfl⟩

/-- No call waits forever: `cancel_delayed_work_sync` comes back once the work function has run. -/
theorem ModuleReady.answered {op : ModuleOp} (ready : ModuleReady t users w op) :
    ∃ w₁ reply w₂, (moduleMachine t users).Drift w w₁ ∧ moduleAnswer w₁ op reply w₂ := by
  have at_once : op.Plain → op.Reply →
      ∃ w₁ reply w₂, (moduleMachine t users).Drift w w₁ ∧ moduleAnswer w₁ op reply w₂ := by
    intro plain reply
    obtain ⟨w', answered⟩ := plain.answers ready.ready reply
    exact ⟨w, reply, w', .refl, answered⟩
  cases op with
  | pointer which => exact ⟨w, w.pointer which, w, .refl, rfl, rfl⟩
  | cancelDelayedWorkSync index =>
      by_cases running : (w.table.devs index).bootTimeoutWork.running = true
      · have runs : ∃ w₁, (moduleMachine t users).interfere w w₁ ∧
            (w₁.table.devs index).bootTimeoutWork.running = false :=
          ⟨{ w with table := _ }, ⟨.workRuns index, running, .workRuns running, rfl, rfl⟩,
            congrArg (·.bootTimeoutWork.running) (Platform.setDev_same w.table index _)⟩
        obtain ⟨w₁, moved, idle⟩ := runs
        exact ⟨w₁, (), _, .single moved, idle, rfl⟩
      · exact ⟨w, (), _, .refl, by simpa using running, rfl⟩
  | enumerateExistedDevs => exact ⟨w, (), w, .refl, scan_finds_nothing w⟩
  | releaseDevs =>
      obtain ⟨table, held, ran, -⟩ :=
        hotplugs_canReturn (ambaPciPlatformExitLocked_calls w.table) w.held
      exact ⟨w, (), _, .refl, table, held, ran, rfl⟩
  | allocChrdevRegion | cdevAdd | busRegisterNotifier => exact at_once trivial ⟨0, le_refl 0⟩
  | classCreate | deviceCreate => exact at_once trivial none
  | procMkdir => exact at_once trivial true
  | _ => exact at_once trivial ()

end AmbaPci

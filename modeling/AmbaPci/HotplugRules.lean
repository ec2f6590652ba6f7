import AmbaPci.Slots

set_option autoImplicit false

/- What the sections that attach and release a device call: they create and remove proc files, take
and drop references and unmap the boot BAR. -/
namespace AmbaPci

open Interaction.Prog

/-- The operations that create proc files. -/
def Op.Creates : Op → Prop
  | .procMkdir _ => True
  | .procCreateData _ _ => True
  | _ => False

/-- The operations on proc files. -/
def Op.ProcFile : Op → Prop
  | .procMkdir _ => True
  | .procCreateData _ _ => True
  | .procUnlink _ => True
  | .procDrain _ => True
  | _ => False

/-- The operations that take a device off its entry. -/
def Op.Detaches : Op → Prop
  | .pciIounmap _ _ => True
  | .pciDevPut _ => True
  | _ => False

/-- The operations of ADD, of DEL and of the releases at module exit. -/
def Op.Hotplugs : Op → Prop
  | .procMkdir _ => True
  | .procCreateData _ _ => True
  | .procUnlink _ => True
  | .procDrain _ => True
  | .pciIounmap _ _ => True
  | .pciDevPut _ => True
  | .pciDevGet _ => True
  | _ => False

theorem Op.Creates.procFile {op : Op} (creates : op.Creates) : op.ProcFile := by
  cases op with
  | procMkdir | procCreateData => trivial
  | _ => exact creates.elim

theorem Op.ProcFile.hotplugs {op : Op} (procFile : op.ProcFile) : op.Hotplugs := by
  cases op with
  | procMkdir | procCreateData | procUnlink | procDrain => trivial
  | _ => exact procFile.elim

theorem Op.Detaches.hotplugs {op : Op} (detaches : op.Detaches) : op.Hotplugs := by
  cases op with
  | pciIounmap | pciDevPut => trivial
  | _ => exact detaches.elim

theorem removeProcSubtree_calls (name : Option Nat) :
    (removeProcSubtree name).Calls Op.ProcFile :=
  Calls.perform trivial fun _ => ⟨trivial, fun _ => trivial⟩

theorem createProcEntries_calls (name : Nat) (nodes : List ProcNode) :
    (createProcEntries name nodes).Calls Op.Creates := by
  induction nodes with
  | nil => trivial
  | cons node rest ih =>
      apply Calls.perform trivial; intro created
      split
      · trivial
      · exact ih

theorem pcieCreateProcNodes_calls (procRoot : Bool) (e : Entry) (index : Nat) :
    (pcieCreateProcNodes procRoot e index).Calls Op.ProcFile := by
  unfold pcieCreateProcNodes
  split
  · trivial
  · apply Calls.perform trivial; intro made
    dsimp only
    split
    · trivial
    · have entries := createProcEntries_calls index pcieProcNodes
      apply Calls.bind (entries.mono fun _ => Op.Creates.procFile); intro created
      split
      · trivial
      · exact Calls.bind (removeProcSubtree_calls _) fun _ => trivial

theorem pcieInitSlot_calls (pdev : PciDev) (index : Fin ambaPciDevMax) (s : Platform) :
    (pcieInitSlot pdev index s).Calls Op.Hotplugs := by
  have nodes := pcieCreateProcNodes_calls s.procRoot (s.devs index) index.val
  apply Calls.bind (nodes.mono fun _ => Op.ProcFile.hotplugs)
  rintro ⟨ret, e⟩
  dsimp only
  split
  · trivial
  · exact Calls.perform trivial fun _ => trivial

theorem pcieHandleAddLocked_calls (pdev : PciDev) (s : Platform) :
    (pcieHandleAddLocked pdev s).Calls Op.Hotplugs := by
  unfold pcieHandleAddLocked
  split
  · trivial
  · split
    · split
      · trivial
      · split
        · exact Calls.perform trivial fun _ => trivial
        · trivial
    · split
      · apply Calls.bind (pcieInitSlot_calls pdev _ s)
        rintro ⟨ret, s₁⟩
        dsimp only
        split
        · trivial
        · trivial
      · split
        · exact Calls.bind (pcieInitSlot_calls pdev _ s) fun _ => trivial
        · trivial

theorem pcieEntryDetachPdev_calls (e : Entry) : (pcieEntryDetachPdev e).Calls Op.Detaches := by
  unfold pcieEntryDetachPdev
  split
  · trivial
  · apply Calls.bind
    · unfold pcieBootBarUnmap
      split
      · trivial
      · exact Calls.perform trivial fun _ => trivial
    · intro unmapped
      exact Calls.perform trivial fun _ => trivial

theorem pcieReleaseDev_calls (e : Entry) : (pcieReleaseDev e).Calls Op.Hotplugs := by
  unfold pcieReleaseDev
  split
  · trivial
  · apply Calls.bind ((pcieEntryDetachPdev_calls e).mono fun _ => Op.Detaches.hotplugs)
    intro detached
    apply Calls.bind
    · unfold releaseProcNodes
      split
      · have removal := removeProcSubtree_calls detached.procName
        exact Calls.bind (removal.mono fun _ => Op.ProcFile.hotplugs) fun _ => trivial
      · trivial
    · intro cleared
      trivial

theorem pcieHandleDelLocked_calls (pdev : PciDev) (s : Platform) :
    (pcieHandleDelLocked pdev s).Calls Op.Hotplugs := by
  unfold pcieHandleDelLocked
  split
  · trivial
  · split
    · trivial
    · split
      · have detach := pcieEntryDetachPdev_calls (s.devs ‹Fin ambaPciDevMax›)
        exact Calls.bind (detach.mono fun _ => Op.Detaches.hotplugs) fun _ => trivial
      · exact Calls.bind (pcieReleaseDev_calls _) fun _ => trivial

end AmbaPci

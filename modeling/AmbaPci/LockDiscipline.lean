import AmbaPci.DriverThreads
import AmbaPci.HotplugRules
import AmbaPci.XferRules

set_option autoImplicit false

/- What each thread holds at each of its steps, and that no set of threads waits for itself as long
as the handlers of a directory are past their locks when it is removed. -/
namespace AmbaPci

open Interaction Interaction.Prog Interaction.Machine

/-! Removals inside a section -/

/-- The directory that has to have been unlinked just before the operation. -/
def Op.drains : Op → Option Nat
  | .procDrain name => name
  | _ => none

/-- The directory that is unlinked but not yet drained, after one more operation. -/
def removingAfter (removing : Option Nat) : (op : Op) → op.Reply → Option Nat
  | .procUnlink name, _ => name
  | .procDrain _, _ => none
  | _, _ => removing

/-- The program waits for the handlers of each directory it removes, right after unlinking it, and
for no others. -/
abbrev Drains {α : Type} (program : Host α) : Prop :=
  (track removingAfter).wp (fun removing op => removing = op.drains)
    (fun _ removing => removing = none) program none

def Op.Plain : Op → Prop
  | .procUnlink _ => False
  | .procDrain _ => False
  | _ => True

theorem Op.Plain.drains {op : Op} (plain : op.Plain) : op.drains = none := by
  cases op with
  | procDrain name => exact plain.elim
  | _ => rfl

theorem Op.Plain.removingAfter {op : Op} (plain : op.Plain) (removing : Option Nat)
    (reply : op.Reply) : removingAfter removing op reply = removing := by
  cases op with
  | procUnlink name => exact plain.elim
  | procDrain name => exact plain.elim
  | _ => rfl

theorem Op.Prepares.plain {op : Op} (prepares : op.Prepares) : op.Plain := by
  cases op with
  | procUnlink name => exact prepares
  | procDrain name => exact prepares
  | _ => trivial

theorem Op.Transfers.plain {op : Op} (transfers : op.Transfers) : op.Plain := by
  rcases transfers with prepares | ⟨sends, -⟩ | rfl
  · exact prepares.plain
  · cases op with
    | procUnlink name => exact sends
    | procDrain name => exact sends
    | _ => trivial
  · trivial

theorem Op.Creates.plain {op : Op} (creates : op.Creates) : op.Plain := by
  cases op with
  | procUnlink | procDrain => exact creates.elim
  | _ => trivial

theorem Op.Detaches.plain {op : Op} (detaches : op.Detaches) : op.Plain := by
  cases op with
  | procUnlink | procDrain => exact detaches.elim
  | _ => trivial

section Drains

variable {α β : Type}

theorem drains_done (value : α) : Drains (.done value : Host α) := (track_done_iff _ _).mpr rfl

theorem drains_calls {program : Host α} (calls : program.Calls Op.Plain) : Drains program := by
  have stable : (track removingAfter).Stable (· = none) := track_stable _
  refine wp_calls stable ?_ ?_ calls rfl
  · intro removing op plain here
    exact here.trans plain.drains.symm
  · intro removing op reply removing' plain here answered
    have moved : removing' = removingAfter removing op reply := answered
    rw [moved, plain.removingAfter, here]

theorem drains_bind {first : Host α} {next : α → Host β} (before : Drains first)
    (after : ∀ value, Drains (next value)) : Drains (first >>= next) := by
  apply wp_seq before
  intro value removing here
  rw [here]
  exact after value

theorem removeProcSubtree_drains (name : Option Nat) : Drains (removeProcSubtree name) := by
  refine (track_call_iff _ _ _).mpr ⟨rfl, fun _ => ?_⟩
  exact (track_call_iff _ _ _).mpr ⟨rfl, fun _ => drains_done _⟩

theorem pcieEntryDetachPdev_drains (e : Entry) : Drains (pcieEntryDetachPdev e) :=
  drains_calls ((pcieEntryDetachPdev_calls e).mono fun _ => Op.Detaches.plain)

theorem releaseProcNodes_drains (e : Entry) : Drains (releaseProcNodes e) := by
  unfold releaseProcNodes
  split
  · exact drains_bind (removeProcSubtree_drains e.procName) fun _ => drains_done _
  · exact drains_done e

theorem pcieReleaseDev_drains (e : Entry) : Drains (pcieReleaseDev e) := by
  unfold pcieReleaseDev
  split
  · exact drains_done e
  · apply drains_bind (pcieEntryDetachPdev_drains e); intro e
    exact drains_bind (releaseProcNodes_drains _) fun _ => drains_done _

theorem createProcEntries_drains (name : Nat) (nodes : List ProcNode) :
    Drains (createProcEntries name nodes) :=
  drains_calls ((createProcEntries_calls name nodes).mono fun _ => Op.Creates.plain)

theorem pcieCreateProcNodes_drains (procRoot : Bool) (e : Entry) (index : Nat) :
    Drains (pcieCreateProcNodes procRoot e index) := by
  unfold pcieCreateProcNodes
  split
  · exact drains_done _
  · have mkdir : Drains (perform (.procMkdir index)) :=
      drains_calls (Calls.perform trivial fun _ => trivial)
    apply drains_bind mkdir; intro made
    dsimp only
    split
    · exact drains_done _
    · apply drains_bind (createProcEntries_drains index pcieProcNodes); intro created
      split
      · exact drains_done _
      · exact drains_bind (removeProcSubtree_drains _) fun _ => drains_done _

theorem pcieInitSlot_drains (pdev : PciDev) (index : Fin ambaPciDevMax) (s : Platform) :
    Drains (pcieInitSlot pdev index s) := by
  apply drains_bind (pcieCreateProcNodes_drains _ _ _)
  rintro ⟨ret, e⟩
  dsimp only
  split
  · exact drains_done _
  · exact drains_calls (Calls.perform trivial fun _ => trivial)

theorem pcieHandleAddLocked_drains (pdev : PciDev) (s : Platform) :
    Drains (pcieHandleAddLocked pdev s) := by
  unfold pcieHandleAddLocked
  split
  · exact drains_done s
  · split
    · split
      · exact drains_done s
      · split
        · exact drains_calls (Calls.bind (Calls.perform trivial fun _ => trivial) fun _ => trivial)
        · exact drains_done s
    · split
      · apply drains_bind (pcieInitSlot_drains pdev _ s)
        rintro ⟨ret, s⟩
        dsimp only
        split
        · exact drains_done _
        · exact drains_done _
      · split
        · exact drains_bind (pcieInitSlot_drains pdev _ s) fun _ => drains_done _
        · exact drains_done s

theorem pcieHandleDelLocked_drains (pdev : PciDev) (s : Platform) :
    Drains (pcieHandleDelLocked pdev s) := by
  unfold pcieHandleDelLocked
  split
  · exact drains_done s
  · split
    · exact drains_done s
    · split
      · exact drains_bind (pcieEntryDetachPdev_drains _) fun _ => drains_done _
      · exact drains_bind (pcieReleaseDev_drains _) fun _ => drains_done _

theorem pciePciBusNotify_drains (action : BusAction) (pdev : PciDev) (s : Platform) :
    Drains (pciePciBusNotify action pdev s) := by
  cases action with
  | addDevice => exact pcieHandleAddLocked_drains pdev s
  | delDevice => exact pcieHandleDelLocked_drains pdev s
  | other => exact drains_done s

theorem releaseDevs_drains (slots : List (Fin ambaPciDevMax)) (s : Platform) :
    Drains (releaseDevs slots s) := by
  induction slots generalizing s with
  | nil => exact drains_done s
  | cons index rest ih => exact drains_bind (pcieReleaseDev_drains _) fun e => ih _

end Drains

/-! What a thread holds -/

/-- The locks that a thread has, whether it is in a proc handler, and the directory that it has
unlinked and not yet drained. -/
structure Hold where
  driver : Bool
  rescan : Bool
  inside : Bool
  removing : Option Nat

namespace Hold

def idle : Hold := ⟨false, false, false, none⟩

/-- `g_pcie_drv.lock` is the innermost lock, and the proc entries change only under it. The driver
waits for all of its handlers only where it holds nothing. -/
def Permits (h : Hold) : ThreadOp → Prop
  | .lock .driver => h.driver = false
  | .lock .rescan => h.rescan = false ∧ h.driver = false
  | .unlock .driver => h.driver = true
  | .unlock .rescan => h.rescan = true
  | .kernel (.procCreateData _ _) => h.driver = true
  | .kernel (.procUnlink _) => h.driver = true
  | .procEnter _ _ => h.inside = false
  | .procDrainRoot => h.driver = false ∧ h.rescan = false ∧ h.inside = false
  | _ => True

def drained : ThreadOp → Option Nat
  | .kernel op => op.drains
  | _ => none

def Allows (h : Hold) (op : ThreadOp) : Prop := h.removing = drained op ∧ h.Permits op

def after (h : Hold) : (op : ThreadOp) → op.Reply → Hold
  | .lock .driver, _ => { h with driver := true }
  | .lock .rescan, _ => { h with rescan := true }
  | .unlock .driver, _ => { h with driver := false }
  | .unlock .rescan, _ => { h with rescan := false }
  | .procEnter _ _, entered => { h with inside := entered }
  | .procLeave, _ => { h with inside := false }
  | .kernel op, reply => { h with removing := removingAfter h.removing op reply }
  | _, _ => h

/-- From `h` the program only takes steps that what it holds permits, and ends in `post`. -/
abbrev Orderly {α : Type} (post : Hold → Prop) (program : Thread α) (h : Hold) : Prop :=
  (track after).wp Allows (fun _ h' => post h') program h

/-- The program gives back whatever it takes. -/
abbrev Balanced {α : Type} (program : Thread α) (h : Hold) : Prop := Orderly (· = h) program h

variable {α β : Type} {h : Hold}

theorem orderly_done_iff {post : Hold → Prop} (value : α) :
    Orderly post (.done value : Thread α) h ↔ post h := track_done_iff value h

theorem orderly_done {post : Hold → Prop} (value : α) (holds : post h) :
    Orderly post (.done value : Thread α) h := (orderly_done_iff value).mpr holds

theorem balanced_done (value : α) : Balanced (.done value : Thread α) h := orderly_done value rfl

theorem orderly_call {post : Hold → Prop} {op : ThreadOp} {next : op.Reply → Thread α}
    (removing : h.removing = drained op) (permits : h.Permits op)
    (resume : ∀ reply, Orderly post (next reply) (h.after op reply)) :
    Orderly post (.call op next) h :=
  (track_call_iff _ _ _).mpr ⟨⟨removing, permits⟩, resume⟩

theorem orderly_bind {post : Hold → Prop} {first : Thread α} {next : α → Thread β}
    (before : Balanced first h) (resume : ∀ value, Orderly post (next value) h) :
    Orderly post (first >>= next) h := by
  apply wp_seq before
  intro value h' here
  rw [here]
  exact resume value

theorem Permits.kernel {op : Op} (driver : h.driver = true) : h.Permits (.kernel op) := by
  cases op with
  | procCreateData name node => exact driver
  | procUnlink name => exact driver
  | _ => trivial

theorem orderly_perform {post : Hold → Prop} {op : ThreadOp} {next : op.Reply → Thread β}
    (removing : h.removing = drained op) (permits : h.Permits op)
    (resume : ∀ reply, Orderly post (next reply) (h.after op reply)) :
    Orderly post (op.perform >>= next) h := orderly_call removing permits resume

/-- Code of the driver, run under its lock. -/
theorem kernelCalls_balanced {program : Host α} (drains : Drains program)
    (driver : h.driver = true) (removing : h.removing = none) :
    Balanced (kernelCalls program) h := by
  have stable : ∀ removing, (track after).Stable (· = { h with removing := removing }) :=
    fun _ => track_stable _
  have simulates : ∀ removing h' op, h' = { h with removing := removing } → removing = op.drains →
      (track after).wp Allows (fun reply h'' => ∃ removing',
        (track removingAfter).answer removing op reply removing' ∧
          h'' = { h with removing := removing' }) (ThreadOp.perform (.kernel op)) h' := by
    intro removing h' op here allowed
    refine (track_call_iff _ _ _).mpr ⟨?_, fun reply => ?_⟩
    · rw [here]
      exact ⟨allowed, Permits.kernel driver⟩
    · rw [track_done_iff, here]
      exact ⟨_, rfl, rfl⟩
  have related : h = { h with removing := none } := by rw [← removing]
  apply wp_mono (wp_interp _ stable simulates drains related)
  intro value h' result
  obtain ⟨removing', none, same⟩ := result
  rw [same, none, ← removing]

/-- A thread that can take the driver lock. -/
structure Free (h : Hold) : Prop where
  driver : h.driver = false
  removing : h.removing = none

theorem lockedSection_balanced {body : Platform → Host (α × Platform)} (free : h.Free)
    (drains : ∀ s, Drains (body s)) : Balanced (lockedSection body) h := by
  unfold lockedSection
  have back : { h with driver := false } = h := by rw [← free.driver]
  refine orderly_perform free.removing free.driver fun _ => ?_
  refine orderly_perform free.removing trivial fun s => ?_
  have body : Balanced (kernelCalls (body s)) { h with driver := true } :=
    kernelCalls_balanced (drains s) rfl free.removing
  refine orderly_bind body fun result => ?_
  refine orderly_perform free.removing trivial fun _ => ?_
  refine orderly_perform free.removing rfl fun _ => ?_
  exact orderly_done result.1 back

theorem busNotify_balanced (free : h.Free) (action : BusAction) (pdev : PciDev) :
    Balanced (busNotify action pdev) h :=
  lockedSection_balanced free fun s =>
    drains_bind (pciePciBusNotify_drains action pdev s) fun _ => drains_done _

theorem busNotifyAll_balanced (free : h.Free) (action : BusAction) (pdevs : List PciDev) :
    Balanced (busNotifyAll action pdevs) h := by
  induction pdevs with
  | nil => exact balanced_done ()
  | cons pdev rest ih => exact orderly_bind (busNotify_balanced free action pdev) fun _ => ih

theorem rescanLocked_balanced {body : Thread Unit} (free : h.Free) (rescan : h.rescan = false)
    (balanced : Balanced body { h with rescan := true }) : Balanced (rescanLocked body) h := by
  have back : { h with rescan := false } = h := by rw [← rescan]
  refine orderly_perform free.removing ⟨rescan, free.driver⟩ fun _ => ?_
  refine orderly_bind balanced fun _ => ?_
  refine orderly_call free.removing rfl fun _ => ?_
  exact orderly_done () back

theorem pciStopAndRemoveBusDevice_balanced (free : h.Free) (pdev : Option PciDev) :
    Balanced (pciStopAndRemoveBusDevice pdev) h := by
  cases pdev with
  | none => exact orderly_call free.removing trivial fun impossible => nomatch impossible
  | some pdev =>
      refine orderly_perform free.removing trivial fun added => ?_
      split
      · exact busNotify_balanced free .delDevice pdev
      · exact balanced_done ()

theorem pciStopAndRemoveBusDeviceLocked_balanced (free : h.Free) (rescan : h.rescan = false)
    (pdev : Option PciDev) : Balanced (pciStopAndRemoveBusDeviceLocked pdev) h := by
  have locked : ({ h with rescan := true } : Hold).Free := ⟨free.driver, free.removing⟩
  exact rescanLocked_balanced free rescan (pciStopAndRemoveBusDevice_balanced locked pdev)

end Hold

/-! The threads -/

/-- The steps of a call outside its sections do not concern the proc files. -/
def CallOp.Fetches : CallOp → Prop
  | .kernel (.kmalloc _) => True
  | .kernel (.copyFromUser _ _) => True
  | .kernel _ => False
  | _ => True

theorem pcieRebootWriteEntry_fetches (index : Fin ambaPciDevMax) (buf : List ByteMemory.Byte) :
    (pcieRebootWriteEntry index buf).Calls CallOp.Fetches := by
  apply Calls.perform trivial; intro inUse
  split
  · trivial
  · split
    · trivial
    · split
      · trivial
      · apply Calls.perform trivial; intro ret
        split
        · trivial
        · apply Calls.perform trivial; intro pdev
          exact Calls.perform trivial fun _ => trivial

theorem pcieProcRebootWrite_fetches (index : Fin ambaPciDevMax) (buf : BitVec 64)
    (count ppos : Nat) : (pcieProcRebootWrite index buf count ppos).Calls CallOp.Fetches := by
  unfold pcieProcRebootWrite
  split
  · trivial
  · split
    · trivial
    · apply Calls.perform trivial; intro kbuf
      split
      · trivial
      · apply Calls.perform trivial; intro copied
        split
        · trivial
        · exact pcieRebootWriteEntry_fetches index _

theorem pcieIoctlXferFirmwareCall_fetches (argp : Option FwXfer) :
    (pcieIoctlXferFirmwareCall argp).Calls CallOp.Fetches := by
  unfold pcieIoctlXferFirmwareCall
  split
  · trivial
  · split
    · split
      · trivial
      · apply Calls.perform trivial; intro ret
        split
        · trivial
        · apply Calls.perform trivial; intro tested
          split
          · trivial
          · apply Calls.perform trivial; intro pdev
            exact Calls.perform trivial fun _ => trivial
    · trivial

namespace Hold

variable {α : Type} {h : Hold} (t : Timing)

theorem callThread_balanced (free : h.Free) (rescan : h.rescan = false) (op : CallOp)
    (fetches : op.Fetches) : Balanced (callThread t op) h := by
  cases op with
  | inUse index =>
      exact orderly_perform free.removing trivial fun e => balanced_done e.inUse
  | readPdev index =>
      exact orderly_perform free.removing trivial fun e => balanced_done e.pdev
  | rebootLocked index => exact lockedSection_balanced free fun s => drains_done _
  | xferFirmwareLocked req index =>
      apply lockedSection_balanced free; intro s
      have sends := (pcieXferFirmwareLocked_calls t req (s.devs index)).mono
        fun _ => Op.Transfers.plain
      exact drains_bind (drains_calls sends) fun _ => drains_done _
  | stopAndRemove pdev => exact pciStopAndRemoveBusDeviceLocked_balanced free rescan pdev
  | kernel op =>
      cases op with
      | kmalloc size => exact orderly_call free.removing trivial fun _ => balanced_done _
      | copyFromUser src length =>
          exact orderly_call free.removing trivial fun _ => balanced_done _
      | _ => exact fetches.elim

/-- A call as a whole. -/
theorem call_balanced (free : h.Free) (rescan : h.rescan = false) {program : Call α}
    (fetches : program.Calls CallOp.Fetches) : Balanced (program.interp (callThread t)) h := by
  induction program with
  | done value => exact balanced_done value
  | call op next ih =>
      exact orderly_bind (callThread_balanced t free rescan op fetches.1)
        fun reply => ih reply (fetches.2 reply)

theorem procCall_balanced (index : Fin ambaPciDevMax) (node : ProcNode) {handler : Thread α}
    (balanced : Balanced handler { idle with inside := true }) :
    Balanced (procCall index node handler) idle := by
  refine orderly_perform rfl rfl fun entered => ?_
  cases entered with
  | false => exact balanced_done ()
  | true =>
      refine orderly_bind balanced fun _ => ?_
      exact orderly_call rfl trivial fun _ => orderly_done () rfl

theorem devInfoRead_balanced (free : h.Free) (index : Fin ambaPciDevMax) :
    Balanced (devInfoRead index) h := by
  refine orderly_perform free.removing trivial fun kbuf => ?_
  split
  · refine orderly_bind (lockedSection_balanced free fun s => ?_) fun _ => balanced_done ()
    exact drains_calls ((pcieDevInfoReadLocked_calls index s).mono fun _ => Op.Prepares.plain)
  · exact balanced_done ()

theorem ambaPciPlatformExit_balanced : Balanced ambaPciPlatformExit idle := by
  have section' : Balanced (lockedSection fun s => do
      let s ← ambaPciPlatformExitLocked s
      pure ((), s)) idle := by
    apply lockedSection_balanced ⟨rfl, rfl⟩; intro s
    refine drains_bind ?_ fun _ => drains_done _
    exact drains_bind (releaseDevs_drains _ s) fun _ => drains_done _
  refine orderly_bind section' fun _ => ?_
  refine orderly_perform rfl trivial fun s => ?_
  split
  · refine orderly_perform rfl trivial fun _ => ?_
    refine orderly_perform rfl ⟨rfl, rfl, rfl⟩ fun _ => ?_
    exact orderly_call rfl trivial fun _ => balanced_done ()
  · exact balanced_done ()

/-- A thread that starts with nothing takes its locks in order and ends with nothing. -/
theorem driverThread_balanced {program : Thread Unit} (thread : DriverThread t program) :
    Balanced program idle := by
  have free : idle.Free := ⟨rfl, rfl⟩
  have freeInside : ({ idle with inside := true } : Hold).Free := ⟨rfl, rfl⟩
  cases thread with
  | hotplug action pdevs =>
      exact rescanLocked_balanced free rfl (busNotifyAll_balanced ⟨rfl, rfl⟩ action pdevs)
  | devInfoRead index =>
      exact procCall_balanced index .devInfo (devInfoRead_balanced freeInside index)
  | rebootWrite index buf count ppos =>
      have fetches := pcieProcRebootWrite_fetches index buf count ppos
      exact procCall_balanced index .reboot (call_balanced t freeInside rfl fetches)
  | xferFirmware argp =>
      have fetches := pcieIoctlXferFirmwareCall_fetches argp
      exact orderly_bind (call_balanced t free rfl fetches) fun _ => balanced_done ()
  | queryPlatformInfo =>
      refine orderly_bind (lockedSection_balanced free fun s => ?_) fun _ => balanced_done ()
      exact drains_calls ((queryDevs_calls _ s).mono fun _ => Op.Prepares.plain)
  | bootTimeout index => exact lockedSection_balanced free fun s => drains_done _
  | exit => exact ambaPciPlatformExit_balanced

end Hold

end AmbaPci

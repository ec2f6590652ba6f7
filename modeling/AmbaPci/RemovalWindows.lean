import AmbaPci.DriverCalls
import AmbaPci.InteractionPool
import AmbaPci.SlotSystem

set_option autoImplicit false

/- Which device a reboot write or a firmware transfer removes once it has dropped the lock. -/
namespace AmbaPci

open Interaction Interaction.Machine

/-- A call between its section and its removal: the slot, the device it saw there under the lock,
and whether it will call the removal in any case. -/
structure Window where
  index : Fin ambaPciDevMax
  saw : Option PciDev
  committed : Bool

/-- A call that only removes a device it finds reads the pointer: it goes on, or is over. -/
def Window.tested (pdev : Option PciDev) (window : Window) : Option Window :=
  if window.committed then some window
  else if pdev.isSome then some { window with committed := true }
  else none

/-- The slot table, and the open window of each thread. -/
structure CallWorld where
  table : Platform
  window : Nat → Option Window

/-- What an operation does when a thread calls it. -/
def callAnswer (t : Timing) (tid : Nat) : CallWorld → (op : CallOp) → op.Reply → CallWorld → Prop
  | s, .inUse index, used, s' => used = (s.table.devs index).inUse ∧ s' = s
  | s, .readPdev index, pdev, s' =>
      pdev = (s.table.devs index).pdev ∧ s'.table = s.table ∧
        s'.window = Function.update s.window tid ((s.window tid).bind (Window.tested pdev))
  | s, .rebootLocked index, ret, s' =>
      ret = (pcieRebootLocked (s.table.devs index)).1 ∧
        s'.table = s.table.setDev index (pcieRebootLocked (s.table.devs index)).2 ∧
        s'.window = if ret = 0 then
          Function.update s.window tid (some ⟨index, (s.table.devs index).pdev, true⟩)
          else s.window
  | s, .xferFirmwareLocked req index, ret, s' =>
      LockedStep anyReply t s.table (.xferFirmware req index ret) s'.table ∧
        s'.window = if ret = 0 then
          Function.update s.window tid (some ⟨index, (s.table.devs index).pdev, false⟩)
          else s.window
  | s, .stopAndRemove _, _, s' =>
      s'.table = s.table ∧ s'.window = Function.update s.window tid none
  | s, .kernel _, _, s' => s' = s

/-- The steps that are not made by one of the calls. -/
def Event.Around : Event → Prop
  | .enumerate _ | .xferFirmware _ _ _ | .reboot _ => False
  | _ => True

instance (event : Event) : Decidable event.Around :=
  match event with
  | .enumerate _ | .xferFirmware _ _ _ | .reboot _ => inferInstanceAs (Decidable False)
  | .add _ | .del _ | .query | .devInfo _ | .timerExpires _ | .workStarts _ | .workRuns _ =>
      inferInstanceAs (Decidable True)

/-- Calls beside hotplug notifications, queries and timeouts that meet a condition. -/
def callSystem (t : Timing) (meets : CallWorld → Event → Prop) :
    System Nat CallOp CallOp.Reply CallWorld where
  answer := callAnswer t
  interfere s s' := ∃ event : Event, event.Around ∧ meets s event ∧
    LockedStep anyReply t s.table event s'.table ∧ s'.window = s.window

inductive RemovalCall : Call Int → Prop
  | reboot (index : Fin ambaPciDevMax) (buf : List ByteMemory.Byte) :
      RemovalCall (pcieRebootWriteEntry index buf)
  | xferFirmware (argp : Option FwXfer) : RemovalCall (pcieIoctlXferFirmwareCall argp)

/-- No call is under way. -/
def idlePool (table : Platform) : Pool Nat CallOp CallOp.Reply CallWorld Int where
  threads _ := .done 0
  shared := ⟨table, fun _ => none⟩

/-- The pools that calls and other steps lead to, from any table. -/
abbrev CallRun (t : Timing) (meets : CallWorld → Event → Prop) (table : Platform) :
    Pool Nat CallOp CallOp.Reply CallWorld Int → Prop :=
  Pool.Reach (callSystem t meets) RemovalCall (fun _ _ _ => True) (idlePool table)

/-- ADD gives the slot this device. -/
def Attaches (s : Platform) (pdev : PciDev) (index : Fin ambaPciDevMax) : Prop :=
  getPciSlotId pdev = some index ∧
    ((s.devs index).inUse = true ∧ (s.devs index).state = .booting ∧ isVirtioCard pdev = true ∨
      (s.devs index).inUse = false ∧ (isVirtioCard pdev = true ∨ isBootRomCard pdev = true))

/-- While a call is in its window, its slot is given no other device; and once it is certain to
remove one, no DEL of the slot is handled. -/
def Undisturbed (s : CallWorld) : Event → Prop
  | .add pdev => ∀ tid window, s.window tid = some window →
      Attaches s.table pdev window.index → window.saw = some pdev
  | .del pdev => ∀ tid window, s.window tid = some window → window.committed = true →
      getPciSlotId pdev ≠ some window.index
  | _ => True

/-! One step and the device of a slot -/

variable {t : Timing}

/-- The device of the window's slot: the one the call saw, or none while that is still tested. -/
structure Window.Holds (window : Window) (s : Platform) : Prop where
  saw : window.saw.isSome = true
  stands : (s.devs window.index).pdev = window.saw ∨
    window.committed = false ∧ (s.devs window.index).pdev = none

theorem Window.Holds.same {window : Window} {s s' : Platform} (holds : window.Holds s)
    (pdev : (s'.devs window.index).pdev = (s.devs window.index).pdev) : window.Holds s' := by
  refine ⟨holds.saw, ?_⟩
  rw [pdev]
  exact holds.stands

theorem Window.Holds.setDev {window : Window} {s : Platform} {slot : Fin ambaPciDevMax}
    {e' : Entry} (holds : window.Holds s)
    (here : slot = window.index → window.Holds (s.setDev slot e')) :
    window.Holds (s.setDev slot e') := by
  by_cases same : slot = window.index
  · exact here same
  · apply holds.same
    rw [Platform.setDev_other s slot window.index e' (Ne.symm same)]

theorem DelOutcome.pdev {e e' : Entry} (outcome : DelOutcome e e') : e' = e ∨ e'.pdev = none := by
  cases outcome with
  | ignored free => exact Or.inl rfl
  | detached used booting =>
      unfold AmbaPci.detached
      split
      · exact Or.inl rfl
      · exact Or.inr rfl
  | released used settled => exact Or.inr rfl

/-- What ADD leaves in its slot: the device there was, or its own that it has attached. -/
theorem AddOutcome.pdev {mayFail : Prop} {pdev : PciDev} {index : Fin ambaPciDevMax}
    {id : BitVec 32} {s : Platform} {e' : Entry} (found : getPciSlotId pdev = some index)
    (outcome : AddOutcome mayFail pdev index id (s.devs index) e') :
    e'.pdev = (s.devs index).pdev ∨ Attaches s pdev index ∧ e'.pdev = some pdev := by
  cases outcome with
  | ignored used untaken => exact Or.inl rfl
  | reconnected used booting card =>
      exact Or.inr ⟨⟨found, Or.inl ⟨used, booting, card⟩⟩, rfl⟩
  | connected free card => exact Or.inr ⟨⟨found, Or.inr ⟨free, Or.inl card⟩⟩, rfl⟩
  | initialized free card unbooted => exact Or.inr ⟨⟨found, Or.inr ⟨free, Or.inr card⟩⟩, rfl⟩
  | unsupported free unbooted other => exact Or.inl rfl
  | failed _ free card _ undone =>
      rcases undone with rfl | ⟨name, rfl⟩
      · exact Or.inl rfl
      · exact Or.inl rfl

/-- The step lemma: an open window holds over every step that does not disturb it. -/
theorem Window.Holds.around {window : Window} {s : CallWorld} {s' : Platform} {event : Event}
    {tid : Nat} (around : event.Around) (undisturbed : Undisturbed s event)
    (step : LockedStep anyReply t s.table event s') (opened : s.window tid = some window)
    (holds : window.Holds s.table) : window.Holds s' := by
  cases event with
  | add pdev =>
      cases step with
      | add returned =>
          rcases pcieHandleAddLocked_returns returned with
            ⟨-, rfl⟩ | ⟨slot, e', found, outcome, devs, -⟩
          · exact holds
          · have moved : window.Holds (s.table.setDev slot e') := by
              refine holds.setDev fun same => ?_
              subst same
              rcases outcome.pdev found with kept | ⟨attaches, attached⟩
              · apply holds.same
                rw [Platform.setDev_same, kept]
              · refine ⟨holds.saw, Or.inl ?_⟩
                rw [Platform.setDev_same, attached, undisturbed tid window opened attaches]
            exact moved.same (by rw [devs])
  | del pdev =>
      cases step with
      | del returned =>
          rcases pcieHandleDelLocked_returns returned with
            ⟨-, rfl⟩ | ⟨slot, e', found, outcome, rfl⟩
          · exact holds
          · refine holds.setDev fun same => ?_
            subst same
            rcases outcome.pdev with rfl | detached
            · rw [Platform.setDev_self]
              exact holds
            · refine ⟨holds.saw, Or.inr ⟨?_, by rw [Platform.setDev_same, detached]⟩⟩
              cases certain : window.committed with
              | false => rfl
              | true => exact absurd found (undisturbed tid window opened certain)
  | enumerate present => exact around.elim
  | xferFirmware req index ret => exact around.elim
  | reboot index => exact around.elim
  | _ => exact holds.same (step.ownMoves rfl window.index).pdev

/-! One call -/

/-- No operation of a call changes the device of a slot. -/
theorem callAnswer_pdev {tid : Nat} {s s' : CallWorld} {op : CallOp} {reply : op.Reply}
    (answered : callAnswer t tid s op reply s') (index : Fin ambaPciDevMax) :
    (s'.table.devs index).pdev = (s.table.devs index).pdev := by
  cases op with
  | inUse slot => rw [answered.2]
  | readPdev slot => rw [answered.2.1]
  | rebootLocked slot =>
      have step : LockedStep anyReply t s.table (.reboot slot) s'.table := by
        rw [answered.2.1]
        exact .reboot
      exact (step.ownMoves rfl index).pdev
  | xferFirmwareLocked req slot => exact (answered.1.ownMoves rfl index).pdev
  | stopAndRemove pdev => rw [answered.1]
  | kernel op =>
      have same : s' = s := answered
      rw [same]

theorem callAnswer_window {tid other : Nat} {s s' : CallWorld} {op : CallOp} {reply : op.Reply}
    (apart : tid ≠ other) (answered : callAnswer t other s op reply s') :
    s'.window tid = s.window tid := by
  cases op with
  | inUse slot => rw [answered.2]
  | readPdev slot => rw [answered.2.2, Function.update_of_ne apart]
  | rebootLocked slot =>
      rw [answered.2.2]
      split
      · rw [Function.update_of_ne apart]
      · rfl
  | xferFirmwareLocked req slot =>
      rw [answered.2]
      split
      · rw [Function.update_of_ne apart]
      · rfl
  | stopAndRemove pdev => rw [answered.2, Function.update_of_ne apart]
  | kernel op =>
      have same : s' = s := answered
      rw [same]

/-- The window that a thread has open, and that it holds. -/
def Opened (tid : Nat) (window : Window) (s : CallWorld) : Prop :=
  s.window tid = some window ∧ window.Holds s.table

theorem opened_stable (tid : Nat) (window : Window) :
    (Pool.machine (callSystem t Undisturbed) tid).Stable (Opened tid window) := by
  intro s s' opened moved
  rcases moved with
    ⟨event, around, undisturbed, step, windows⟩ | ⟨other, op, reply, apart, answered⟩
  · exact ⟨windows ▸ opened.1, opened.2.around around undisturbed step opened.1⟩
  · exact ⟨(callAnswer_window (Ne.symm apart) answered).trans opened.1,
      opened.2.same (callAnswer_pdev answered window.index)⟩

theorem free_stable (tid : Nat) :
    (Pool.machine (callSystem t Undisturbed) tid).Stable fun _ => True := fun _ _ _ _ => trivial

/-- A removal gets the device that the call saw under the lock, and its slot still names it. -/
def RemovesSeen (tid : Nat) (s : CallWorld) : CallOp → Prop
  | .stopAndRemove arg => ∃ window pdev, s.window tid = some window ∧ window.saw = some pdev ∧
      arg = some pdev ∧ (s.table.devs window.index).pdev = some pdev
  | _ => True

abbrev removalWp (t : Timing) (tid : Nat) (program : Call Int) (s : CallWorld) : Prop :=
  (Pool.machine (callSystem t Undisturbed) tid).wp (RemovesSeen tid) (fun _ _ => True) program s

theorem removalWp_done (tid : Nat) (value : Int) (s : CallWorld) :
    removalWp t tid (.done value) s := fun _ _ => trivial

/-- A committed call that reads the pointer and removes what it has read. -/
theorem remove_wp {tid : Nat} {window : Window} (certain : window.committed = true)
    (value : Int) {s : CallWorld} (opened : Opened tid window s) :
    removalWp t tid (do
      let pdev ← CallOp.perform (.readPdev window.index)
      CallOp.perform (.stopAndRemove pdev)
      pure value) s := by
  apply wp_perform (opened_stable tid window) opened (fun _ _ => trivial)
  intro s₁ pdev s₂ here answered
  have answer : callAnswer t tid s₁ (.readPdev window.index) pdev s₂ := answered
  have read : pdev = window.saw := by
    rcases here.2.stands with seen | ⟨untested, -⟩
    · rw [answer.1, seen]
    · rw [certain] at untested
      cases untested
  have opened₂ : Opened tid window s₂ := by
    refine ⟨?_, here.2.same (callAnswer_pdev answer window.index)⟩
    rw [answer.2.2, Function.update_self, here.1]
    simp [Window.tested, certain]
  apply wp_perform (opened_stable tid window) opened₂
  · intro s₃ here₃
    obtain ⟨seen, saw⟩ := Option.isSome_iff_exists.mp here₃.2.saw
    refine ⟨window, seen, here₃.1, saw, read.trans saw, ?_⟩
    rcases here₃.2.stands with stands | ⟨untested, -⟩
    · exact stands.trans saw
    · rw [certain] at untested
      cases untested
  · intro s₃ _ s₄ _ _
    exact removalWp_done tid value s₄

theorem pcieRebootLocked_seen {e : Entry} (zero : (pcieRebootLocked e).1 = 0) :
    e.pdev.isSome = true := by
  unfold pcieRebootLocked at zero
  split at zero
  · exact absurd zero (show (-enodev : Int) ≠ 0 by decide)
  · rename_i attached
    simpa [Option.isSome_iff_ne_none] using attached

theorem pcieRebootWriteEntry_removal (tid : Nat) (index : Fin ambaPciDevMax)
    (buf : List ByteMemory.Byte) (s : CallWorld) :
    removalWp t tid (pcieRebootWriteEntry index buf) s := by
  apply wp_perform (free_stable tid) trivial (fun _ _ => trivial)
  intro s₁ inUse s₂ _ _
  split
  · exact removalWp_done tid _ s₂
  · split
    · exact removalWp_done tid _ s₂
    · split
      · exact removalWp_done tid _ s₂
      · apply wp_perform (free_stable tid) trivial (fun _ _ => trivial)
        intro s₃ ret s₄ _ answered
        have answer : callAnswer t tid s₃ (.rebootLocked index) ret s₄ := answered
        split
        · exact removalWp_done tid ret s₄
        · rename_i succeeded
          have zero : ret = 0 := Decidable.not_not.mp succeeded
          have saw := pcieRebootLocked_seen (answer.1.symm.trans zero)
          have opened : Opened tid ⟨index, (s₃.table.devs index).pdev, true⟩ s₄ := by
            refine ⟨?_, saw, Or.inl (callAnswer_pdev answer index)⟩
            rw [answer.2.2, if_pos zero, Function.update_self]
          exact remove_wp rfl _ opened

theorem xferFirmware_seen {s s' : Platform} {req : FwXfer} {index : Fin ambaPciDevMax} {ret : Int}
    (step : LockedStep anyReply t s (.xferFirmware req index ret) s') (zero : ret = 0) :
    (s.devs index).pdev.isSome = true := by
  cases step with
  | xferFirmware accepted addressed returned =>
      rcases pcieXferFirmwareLocked_returns returned with ⟨failed, -⟩ | ⟨-, -, -, attached, -⟩
      · exact absurd zero failed
      · exact attached

/-- The test after the lock: a call that finds a device finds the one it saw. -/
theorem tested_opened {tid : Nat} {window : Window} {s s' : CallWorld} {pdev : Option PciDev}
    (opened : Opened tid window s) (some : pdev.isSome = true)
    (answer : callAnswer t tid s (.readPdev window.index) pdev s') :
    Opened tid { window with committed := true } s' := by
  have kept : (s'.table.devs window.index).pdev = (s.table.devs window.index).pdev :=
    callAnswer_pdev answer window.index
  refine ⟨?_, opened.2.saw, Or.inl ?_⟩
  · rw [answer.2.2, Function.update_self, opened.1]
    obtain ⟨index, saw, committed⟩ := window
    cases committed with
    | false => simp [Window.tested, some]
    | true => simp [Window.tested]
  · rcases opened.2.stands with stands | ⟨-, gone⟩
    · exact kept.trans stands
    · rw [answer.1, gone] at some
      cases some

theorem pcieIoctlXferFirmwareCall_removal (tid : Nat) (argp : Option FwXfer) (s : CallWorld) :
    removalWp t tid (pcieIoctlXferFirmwareCall argp) s := by
  unfold pcieIoctlXferFirmwareCall
  split
  · exact removalWp_done tid _ s
  · rename_i req
    split
    · rename_i inside
      split
      · exact removalWp_done tid _ s
      · apply wp_perform (free_stable tid) trivial (fun _ _ => trivial)
        intro s₁ ret s₂ _ answered
        have answer : callAnswer t tid s₁ (.xferFirmwareLocked req ⟨req.slotId.toNat, inside⟩) ret
            s₂ := answered
        split
        · exact removalWp_done tid ret s₂
        · rename_i succeeded
          have zero : ret = 0 := Decidable.not_not.mp succeeded
          have opened : Opened tid ⟨⟨req.slotId.toNat, inside⟩,
              (s₁.table.devs ⟨req.slotId.toNat, inside⟩).pdev, false⟩ s₂ := by
            refine ⟨?_, xferFirmware_seen answer.1 zero, Or.inl (callAnswer_pdev answer _)⟩
            rw [answer.2, if_pos zero, Function.update_self]
          apply wp_perform (opened_stable tid _) opened (fun _ _ => trivial)
          intro s₃ tested s₄ here read
          split
          · exact removalWp_done tid ret s₄
          · rename_i found
            have some : tested.isSome = true := by
              rw [Option.isSome_iff_ne_none]
              simpa using found
            exact remove_wp rfl ret (tested_opened (t := t) here some read)
    · exact removalWp_done tid _ s

/-! Whole runs -/

variable {table : Platform} {pool : Pool Nat CallOp CallOp.Reply CallWorld Int}

theorem CallRun.removal (run : CallRun t Undisturbed table pool) (tid : Nat) :
    removalWp t tid (pool.threads tid) pool.shared := by
  refine Pool.Reach.wp (fun tid => removalWp_done tid 0 _) ?_ run tid
  intro tid program s allowed
  cases allowed with
  | reboot index buf => exact pcieRebootWriteEntry_removal tid index buf s
  | xferFirmware argp => exact pcieIoctlXferFirmwareCall_removal tid argp s

/-- In every run whose notifications disturb no open window, every removal that a reboot write or
a firmware transfer is about to make gets the device that the call saw under the lock, and the
slot entry still refers to it. -/
theorem removal_validated (t : Timing) (table : Platform)
    (pool : Pool Nat CallOp CallOp.Reply CallWorld Int) (run : CallRun t Undisturbed table pool)
    (tid : Nat) (arg : Option PciDev)
    (turn : (pool.threads tid).nextOp = some (.stopAndRemove arg)) :
    ∃ window pdev, pool.shared.window tid = some window ∧ window.saw = some pdev ∧
      arg = some pdev ∧ (pool.shared.table.devs window.index).pdev = some pdev := by
  have holds := run.removal tid
  cases program : pool.threads tid with
  | done value =>
      rw [program] at turn
      cases turn
  | call op next =>
      rw [program] at turn holds
      cases turn
      exact (holds _ .refl).1

/-! Two runs of a reboot write -/

/-- The calls against a kernel in which nothing fails; a transfer always succeeds. -/
def callReply (t : Timing) (tid : Nat) (s : CallWorld) :
    (op : CallOp) → Option (op.Reply × CallWorld)
  | .inUse index => some ((s.table.devs index).inUse, s)
  | .readPdev index =>
      let pdev := (s.table.devs index).pdev
      some (pdev, ⟨s.table,
        Function.update s.window tid ((s.window tid).bind (Window.tested pdev))⟩)
  | .rebootLocked index =>
      let section' := pcieRebootLocked (s.table.devs index)
      some (section'.1, ⟨s.table.setDev index section'.2,
        if section'.1 = 0 then
          Function.update s.window tid (some ⟨index, (s.table.devs index).pdev, true⟩)
        else s.window⟩)
  | .xferFirmwareLocked req index =>
      (driveEvent promptReply t s.table (.xferFirmware req index 0)).map fun table =>
        ((0 : Int), ⟨table, Function.update s.window tid
          (some ⟨index, (s.table.devs index).pdev, false⟩)⟩)
  | .stopAndRemove _ => some ((), ⟨s.table, Function.update s.window tid none⟩)
  | .kernel op => (promptReply op).map fun reply => (reply, s)

theorem callReply_answer {tid : Nat} {s s' : CallWorld} {op : CallOp} {reply : op.Reply}
    (replied : callReply t tid s op = some (reply, s')) : callAnswer t tid s op reply s' := by
  cases op with
  | inUse index => cases replied; exact ⟨rfl, rfl⟩
  | readPdev index => cases replied; exact ⟨rfl, rfl, rfl⟩
  | rebootLocked index => cases replied; exact ⟨rfl, rfl, rfl⟩
  | xferFirmwareLocked req index =>
      obtain ⟨table, driven, same⟩ := Option.map_eq_some_iff.mp replied
      cases same
      exact ⟨driveEvent_step (fun _ _ _ => trivial) driven, rfl⟩
  | stopAndRemove pdev => cases replied; exact ⟨rfl, rfl⟩
  | kernel op =>
      obtain ⟨reply', -, same⟩ := Option.map_eq_some_iff.mp replied
      cases same
      rfl

/-- The calls beside the events that `admits` lets through. -/
def callDriver (t : Timing) (admits : CallWorld → Event → Bool) :
    Pool.Driver Nat CallOp CallOp.Reply CallWorld Event where
  answer := callReply t
  interfere event s :=
    if event.Around ∧ admits s event = true then
      (driveEvent promptReply t s.table event).map fun table => ⟨table, s.window⟩
    else none

theorem callDriver_sound {admits : CallWorld → Event → Bool} {meets : CallWorld → Event → Prop}
    (met : ∀ s event, admits s event = true → meets s event) :
    Pool.Driver.Sound (callDriver t admits) (callSystem t meets)
      fun (_ : Pool Nat CallOp CallOp.Reply CallWorld Int) _ _ => True where
  answer _ _ _ _ _ replied := callReply_answer replied
  interfere event s s' moved := by
    simp only [callDriver, Option.ite_none_right_eq_some, Option.map_eq_some_iff] at moved
    obtain ⟨⟨around, admitted⟩, table, driven, rfl⟩ := moved
    exact ⟨event, around, met s event admitted, driveEvent_step (fun _ _ _ => trivial) driven, rfl⟩
  met _ _ _ _ := trivial

abbrev CallTurn := Pool.Turn Nat CallOp CallOp.Reply Int Event

/-- Where the turns lead, from a table without a call under way. -/
def poolAfter (admits : CallWorld → Event → Bool) (table : Platform) (turns : List CallTurn) :
    Pool Nat CallOp CallOp.Reply CallWorld Int :=
  (turns.foldlM (callDriver ⟨1000, 1⟩ admits).step (idlePool table)).getD (idlePool table)

theorem poolAfter_run (admits : CallWorld → Event → Bool) {meets : CallWorld → Event → Prop}
    (met : ∀ s event, admits s event = true → meets s event) (table : Platform)
    {turns : List CallTurn} (starts : ∀ turn ∈ turns, turn.Starts RemovalCall)
    (ran : (turns.foldlM (callDriver ⟨1000, 1⟩ admits).step (idlePool table)).isSome = true) :
    CallRun ⟨1000, 1⟩ meets table (poolAfter admits table turns) := by
  obtain ⟨pool, found⟩ := Option.isSome_iff_exists.mp ran
  simp only [poolAfter, found, Option.getD_some]
  exact (callDriver_sound met).reach turns starts .init found

/-- Thread 0 writes "1" to the reboot node of slot 0 and leaves its section. -/
def rebootTurns : List CallTurn := [.start 0 (pcieRebootWriteEntry 0 [49]), .take 0, .take 0]

/-- A virtio card on bus 1 has been found. -/
def connectedTable : Platform :=
  (driveEvents promptReply ⟨1000, 1⟩ [.add (cardAt 1 1 ambaPciVirtioDeviceId)]
    (platformInit true)).getD (platformInit true)

theorem removal_validated_reboot :
    ∃ window pdev, (poolAfter (fun _ _ => false) connectedTable
        (rebootTurns ++ [.take 0])).shared.window 0 = some window ∧ window.saw = some pdev ∧
      some (cardAt 1 1 ambaPciVirtioDeviceId) = some pdev ∧
      ((poolAfter (fun _ _ => false) connectedTable
        (rebootTurns ++ [.take 0])).shared.table.devs window.index).pdev = some pdev := by
  have starts : ∀ turn ∈ rebootTurns ++ [.take 0], Pool.Turn.Starts RemovalCall turn := by
    simp [rebootTurns, Pool.Turn.Starts, RemovalCall.reboot]
  have run : CallRun ⟨1000, 1⟩ Undisturbed connectedTable
      (poolAfter (fun _ _ => false) connectedTable (rebootTurns ++ [.take 0])) :=
    poolAfter_run (fun _ _ => false) (fun _ _ none => nomatch none) connectedTable starts
      (by decide +kernel)
  exact removal_validated ⟨1000, 1⟩ connectedTable _ run 0 _ (by decide +kernel)

/-- The same write, with the card plugged in before it and unplugged after its section. -/
def unpluggedTurns : List CallTurn :=
  .move (.add (cardAt 1 1 ambaPciVirtioDeviceId)) :: rebootTurns ++
    [.move (.del (cardAt 1 1 ambaPciVirtioDeviceId)), .take 0]

/-- The removal gets NULL. -/
theorem removal_validated_unplugged : ¬ ∀ t table pool,
    CallRun t (fun _ _ => True) table pool → ∀ tid arg,
      (pool.threads tid).nextOp = some (.stopAndRemove arg) →
        ∃ window pdev, pool.shared.window tid = some window ∧ window.saw = some pdev ∧
          arg = some pdev ∧ (pool.shared.table.devs window.index).pdev = some pdev := by
  intro claim
  have starts : ∀ turn ∈ unpluggedTurns, Pool.Turn.Starts RemovalCall turn := by
    simp [unpluggedTurns, rebootTurns, Pool.Turn.Starts, RemovalCall.reboot]
  have run : CallRun ⟨1000, 1⟩ (fun _ _ => True) (platformInit true)
      (poolAfter (fun _ _ => true) (platformInit true) unpluggedTurns) :=
    poolAfter_run (fun _ _ => true) (fun _ _ _ => trivial) (platformInit true) starts
      (by decide +kernel)
  obtain ⟨window, pdev, -, -, received, -⟩ :=
    claim ⟨1000, 1⟩ (platformInit true) _ run 0 none (by decide +kernel)
  cases received

end AmbaPci

import AmbaPci.H2d
import AmbaPci.InteractionMachine

set_option autoImplicit false

/- Which card the chunks of one H2D call reach while the driver goes on around it. -/
namespace AmbaPci

open ByteMemory (Byte)
open Interaction

/-- A chunk that `h2d_xfer` has taken: what was asked for, the slot's entry at that moment, and
whether the slot had been disturbed since the call checked it. -/
structure Delivery where
  bus : BitVec 32
  epAddr : BitVec 64
  bytes : List Byte
  entry : Entry
  disturbed : Bool

structure H2dWorld where
  platform : Platform
  running : BitVec 32 → Bool
  checked : Option Entry := none
  disturbed : Bool := false
  deliveries : List Delivery := []

/-- A reboot write to the slot, or a DEL on its bus. -/
def Event.disturbs (index : Fin ambaPciDevMax) : Event → Bool
  | .reboot slot => slot = index
  | .del pdev => pdev.bus = (pciePhysicalSlots index).bus
  | _ => false

/-- `h2d_xfer` succeeds exactly when a card is running on the bus. -/
def h2dAnswer (index : Fin ambaPciDevMax) (w : H2dWorld) :
    (op : H2dOp) → op.Reply → H2dWorld → Prop
  | .lockedEntry slot, e, w' =>
      e = w.platform.devs slot ∧ w' = { w with checked := some e, disturbed := false }
  | .h2dXfer bus bytes epAddr, ret, w' =>
      if w.running bus then
        ret = 0 ∧ w' = { w with deliveries := w.deliveries ++
          [⟨bus, epAddr, bytes, w.platform.devs index, w.disturbed⟩] }
      else ret < 0 ∧ w' = w
  | .kernelRead _ count, .read bytes, w' => bytes.length ≤ count ∧ w' = w
  | _, _, w' => w' = w

/-- Around the call the driver takes its steps, and cards start and stop running. -/
def h2dInterfere (t : Timing) (index : Fin ambaPciDevMax) (w w' : H2dWorld) : Prop :=
  (∃ event platform, LockedStep anyReply t w.platform event platform ∧
    w' = { w with platform := platform, disturbed := w.disturbed || event.disturbs index }) ∨
  ∃ running, w' = { w with running := running }

def h2dMachine (t : Timing) (index : Fin ambaPciDevMax) :
    Machine H2dOp H2dOp.Reply H2dWorld where
  answer := h2dAnswer index
  interfere := h2dInterfere t index

/-- The entry is CONNECTED to the device instance of an earlier entry. -/
structure SameCard (before e : Entry) : Prop where
  used : e.inUse = true
  connected : e.state = .connected
  id : e.id = before.id
  pdev : e.pdev = before.pdev

theorem OwnMove.sameCard {told : Prop} {before e e' : Entry} (move : OwnMove told e e')
    (untold : ¬ told) (same : SameCard before e) : SameCard before e' := by
  cases move with
  | refreshed change idle =>
      exact ⟨change.inUse.trans same.used, change.state.trans same.connected,
        change.id.trans same.id, change.pdev.trans same.pdev⟩
  | booted used idle attached change =>
      rw [same.connected] at idle
      cases idle
  | rebooted asked attached running => exact absurd asked untold
  | timerExpired armed => exact ⟨same.used, same.connected, same.id, same.pdev⟩
  | workStarted queued returned => exact ⟨same.used, same.connected, same.id, same.pdev⟩
  | workRan started =>
      have settled : ¬ (e.inUse = true ∧ e.state = .booting) := by simp [same.connected]
      rw [pcieBootTimeoutFn, if_neg settled]
      exact ⟨same.used, same.connected, same.id, same.pdev⟩

theorem OwnMoves.sameCard {told : Prop} {before e e' : Entry} (moved : OwnMoves told e e')
    (untold : ¬ told) (same : SameCard before e) : SameCard before e' := by
  induction moved with
  | refl => exact same
  | tail _ last ih => exact last.sameCard untold ih

/-- ADD does nothing to a CONNECTED slot. -/
theorem AddOutcome.sameCard {mayFail : Prop} {pdev : PciDev} {index : Fin ambaPciDevMax}
    {id : BitVec 32} {before e e' : Entry} (outcome : AddOutcome mayFail pdev index id e e')
    (same : SameCard before e) : SameCard before e' := by
  have used := same.used
  have connected := same.connected
  cases outcome with
  | ignored => exact same
  | reconnected _ booting =>
      rw [connected] at booting
      cases booting
  | connected free => simp [used] at free
  | initialized free => simp [used] at free
  | unsupported => exact same
  | failed _ free => simp [used] at free

variable {allow : (op : Op) → op.Reply → Prop} {t : Timing} {index : Fin ambaPciDevMax}

theorem pcieHandleAddLocked_sameCard {pdev : PciDev} {s s' : Platform} {before : Entry}
    (returned : Prog.Returns allow (pcieHandleAddLocked pdev s) s')
    (same : SameCard before (s.devs index)) : SameCard before (s'.devs index) := by
  rcases pcieHandleAddLocked_returns returned with ⟨-, rfl⟩ | ⟨slot, e', -, outcome, devs, -⟩
  · exact same
  · rw [devs]
    by_cases here : index = slot
    · subst here
      rw [Platform.setDev_same]
      exact outcome.sameCard same
    · rw [Platform.setDev_other s slot index e' here]
      exact same

theorem handleAdds_sameCard (pdevs : List PciDev) {s s' : Platform} {before : Entry}
    (returned : Prog.Returns allow (handleAdds pdevs s) s')
    (same : SameCard before (s.devs index)) : SameCard before (s'.devs index) := by
  induction pdevs generalizing s with
  | nil =>
      cases (Prog.returns_done_iff _ _).mp returned
      exact same
  | cons pdev rest ih =>
      obtain ⟨s₁, first, returned⟩ := (Prog.returns_bind_iff _ _ _).mp returned
      exact ih returned (pcieHandleAddLocked_sameCard first same)

/-- Nothing but a reboot write to the slot or a DEL on its bus takes a card away from it. -/
theorem LockedStep.sameCard {s s' : Platform} {event : Event} {before : Entry}
    (step : LockedStep allow t s event s') (calm : event.disturbs index = false)
    (same : SameCard before (s.devs index)) : SameCard before (s'.devs index) := by
  by_cases own : event.isHotplug = false
  · apply OwnMoves.sameCard (step.ownMoves own index) _ same
    rintro rfl
    simp [Event.disturbs] at calm
  · cases step with
    | add returned => exact pcieHandleAddLocked_sameCard returned same
    | del returned =>
        rcases pcieHandleDelLocked_returns returned with ⟨-, rfl⟩ | ⟨slot, e', found, -, rfl⟩
        · exact same
        · have elsewhere : index ≠ slot := by
            rintro rfl
            simp [Event.disturbs, getPciSlotId_bus found] at calm
          rw [Platform.setDev_other s slot index e' elsewhere]
          exact same
    | enumerate returned =>
        rw [pcieEnumerateExistedDevs, enumerateSlots_eq] at returned
        exact handleAdds_sameCard _ returned same
    | _ => exact absurd rfl own

/-- What holds from the check on: the slot is still the checked card's as long as it has not been
disturbed, and so it was for every chunk delivered undisturbed. -/
structure Delivering (index : Fin ambaPciDevMax) (before : Entry) (bus : BitVec 32)
    (w : H2dWorld) : Prop where
  checked : w.checked = some before
  now : w.disturbed = false → SameCard before (w.platform.devs index)
  buses : ∀ d ∈ w.deliveries, d.bus = bus
  past : ∀ d ∈ w.deliveries, d.disturbed = false → SameCard before d.entry
  calm : w.disturbed = false → ∀ d ∈ w.deliveries, d.disturbed = false

theorem delivering_stable (before : Entry) (bus : BitVec 32) :
    (h2dMachine t index).Stable (Delivering index before bus) := by
  rintro w w' holds (⟨event, platform, step, rfl⟩ | ⟨running, rfl⟩)
  · refine ⟨holds.checked, ?_, holds.buses, holds.past, ?_⟩
    · intro undisturbed
      simp only [Bool.or_eq_false_iff] at undisturbed
      exact step.sameCard undisturbed.2 (holds.now undisturbed.1)
    · intro undisturbed
      simp only [Bool.or_eq_false_iff] at undisturbed
      exact holds.calm undisturbed.1
  · exact ⟨holds.checked, holds.now, holds.buses, holds.past, holds.calm⟩

/-- The operations a call performs once its slot is checked. -/
def AfterCheck (bus : BitVec 32) : H2dOp → Prop
  | .lockedEntry _ => False
  | .h2dXfer number _ _ => number = bus
  | _ => True

theorem delivering_answer {before : Entry} {bus : BitVec 32} (w : H2dWorld) (op : H2dOp)
    (reply : op.Reply) (w' : H2dWorld) (later : AfterCheck bus op)
    (holds : Delivering index before bus w)
    (answered : (h2dMachine t index).answer w op reply w') : Delivering index before bus w' := by
  cases op with
  | lockedEntry slot => exact absurd later id
  | h2dXfer number bytes epAddr =>
      have answered : if w.running number then
          reply = 0 ∧ w' = { w with deliveries := w.deliveries ++
            [⟨number, epAddr, bytes, w.platform.devs index, w.disturbed⟩] }
        else reply < 0 ∧ w' = w := answered
      split at answered
      · obtain ⟨-, rfl⟩ := answered
        refine ⟨holds.checked, holds.now, ?_, ?_, ?_⟩
        · intro d inside
          rcases List.mem_append.mp inside with old | new
          · exact holds.buses d old
          · rw [List.mem_singleton.mp new]
            exact later
        · intro d inside undisturbed
          rcases List.mem_append.mp inside with old | new
          · exact holds.past d old undisturbed
          · rw [List.mem_singleton.mp new] at undisturbed ⊢
            exact holds.now undisturbed
        · intro undisturbed d inside
          rcases List.mem_append.mp inside with old | new
          · exact holds.calm undisturbed d old
          · rw [List.mem_singleton.mp new]
            exact undisturbed
      · obtain ⟨-, rfl⟩ := answered
        exact holds
  | kernelRead pos count =>
      cases reply with
      | failed err =>
          cases (show w' = w from answered)
          exact holds
      | read bytes =>
          obtain ⟨-, rfl⟩ := (show bytes.length ≤ count ∧ w' = w from answered)
          exact holds
  | _ =>
      cases (show w' = w from answered)
      exact holds

theorem pcieH2dFileLoop_calls (bus : BitVec 32) (reads pos : Nat) (epAddr : BitVec 64) :
    (pcieH2dFileLoop bus reads pos epAddr).Calls (AfterCheck bus) := by
  induction reads generalizing pos epAddr with
  | zero => exact ⟨trivial, fun impossible => nomatch impossible⟩
  | succ reads ih =>
      apply Prog.Calls.perform trivial
      intro nread
      split
      · trivial
      · trivial
      · apply Prog.Calls.perform (by rfl)
        intro ret
        split
        · trivial
        · exact ih _ _

theorem pcieH2dSendOpened_calls (bus : BitVec 32) (reads : Nat) (epAddr : BitVec 64) :
    (pcieH2dSendOpened bus reads epAddr).Calls (AfterCheck bus) := by
  apply Prog.Calls.perform trivial
  intro kbuf
  split
  · trivial
  · apply Prog.Calls.bind (pcieH2dFileLoop_calls bus reads 0 epAddr)
    intro ret
    exact Prog.Calls.perform trivial fun _ => trivial

theorem pcieH2dSendPath_calls (bus : BitVec 32) (reads : Nat) (path : List Byte)
    (epAddr : BitVec 64) : (pcieH2dSendPath bus reads path epAddr).Calls (AfterCheck bus) := by
  apply Prog.Calls.perform trivial
  intro found
  split
  · trivial
  · apply Prog.Calls.perform trivial
    intro opened
    split
    · exact Prog.Calls.perform trivial fun _ => trivial
    · apply Prog.Calls.bind (pcieH2dSendOpened_calls bus reads epAddr)
      intro ret
      apply Prog.Calls.perform trivial
      intro _
      exact Prog.Calls.perform trivial fun _ => trivial

theorem pcieH2dBufferLoop_calls (bus : BitVec 32) (src size epAddr : BitVec 64) (passes : Nat)
    (offset : BitVec 64) :
    (pcieH2dBufferLoop bus src size epAddr passes offset).Calls (AfterCheck bus) := by
  induction passes generalizing offset with
  | zero => exact ⟨trivial, fun impossible => nomatch impossible⟩
  | succ passes ih =>
      unfold pcieH2dBufferLoop
      split
      · apply Prog.Calls.perform trivial
        intro copied
        split
        · trivial
        · apply Prog.Calls.perform (by rfl)
          intro ret
          split
          · trivial
          · exact ih _
      · trivial

theorem pcieH2dSendCopied_calls (bus : BitVec 32) (src size epAddr : BitVec 64) :
    (pcieH2dSendCopied bus src size epAddr).Calls (AfterCheck bus) := by
  apply Prog.Calls.perform trivial
  intro found
  split
  · trivial
  · apply Prog.Calls.perform trivial
    intro kbuf
    split
    · exact Prog.Calls.perform trivial fun _ => trivial
    · apply Prog.Calls.bind (pcieH2dBufferLoop_calls bus src size epAddr _ 0)
      intro ret
      apply Prog.Calls.perform trivial
      intro _
      exact Prog.Calls.perform trivial fun _ => trivial

/-- The check passes only for a CONNECTED slot with a device. -/
theorem h2dEntryBus_ok {e : Entry} {bus : BitVec 32} (passed : h2dEntryBus e = .ok bus) :
    SameCard e e ∧ ∃ pdev, e.pdev = some pdev ∧ bus = pdev.bus.setWidth 32 := by
  unfold h2dEntryBus at passed
  split at passed
  · rename_i pdev used attached
    split at passed
    · cases passed
    · rename_i connected
      cases passed
      exact ⟨⟨used, Decidable.not_not.mp connected, rfl, rfl⟩, pdev, attached, rfl⟩
  · cases passed

/-- Everything the chunks of a finished call tell about its card. -/
def OneCard (w : H2dWorld) : Prop :=
  ∀ d ∈ w.deliveries, ∃ before pdev, w.checked = some before ∧ before.state = .connected ∧
    before.pdev = some pdev ∧ d.bus = pdev.bus.setWidth 32 ∧
    (d.disturbed = false → d.entry.inUse = true ∧ d.entry.state = .connected ∧
      d.entry.id = before.id ∧ d.entry.pdev = some pdev)

structure CallOutcome (w : H2dWorld) : Prop where
  card : OneCard w
  calm : w.disturbed = false → ∀ d ∈ w.deliveries, d.disturbed = false

theorem Delivering.outcome {before : Entry} {bus : BitVec 32} {w : H2dWorld}
    (holds : Delivering index before bus w) (passed : h2dEntryBus before = .ok bus) :
    CallOutcome w := by
  obtain ⟨same, pdev, attached, number⟩ := h2dEntryBus_ok passed
  refine ⟨fun d inside => ?_, holds.calm⟩
  refine ⟨before, pdev, holds.checked, same.connected, attached,
    (holds.buses d inside).trans number, fun undisturbed => ?_⟩
  have kept := holds.past d inside undisturbed
  exact ⟨kept.used, kept.connected, kept.id, kept.pdev.trans attached⟩

theorem outcome_of_no_deliveries {w : H2dWorld} (silent : w.deliveries = []) : CallOutcome w := by
  constructor
  · intro d inside
    rw [silent] at inside
    cases inside
  · intro _ d inside
    rw [silent] at inside
    cases inside

theorem silent_stable : (h2dMachine t index).Stable fun w => w.deliveries = [] := by
  rintro w w' silent (⟨event, platform, -, rfl⟩ | ⟨running, rfl⟩)
  · exact silent
  · exact silent

/-- The locked check and what follows it. -/
theorem checked_wp {rest : BitVec 32 → H2d Int}
    (later : ∀ bus, (rest bus).Calls (AfterCheck bus)) {w : H2dWorld} (slot : Fin ambaPciDevMax)
    (here : slot = index) (silent : w.deliveries = []) :
    (h2dMachine t index).wp (fun _ _ => True) (fun _ => CallOutcome)
      (h2d (.lockedEntry slot) >>= fun e =>
        match h2dEntryBus e with
        | .error err => pure err
        | .ok bus => rest bus) w := by
  subst here
  apply Machine.wp_call silent_stable silent fun _ _ => trivial
  intro w₁ e w₂ silent answered
  obtain ⟨rfl, rfl⟩ := (show e = w₁.platform.devs slot ∧
    w₂ = { w₁ with checked := some e, disturbed := false } from answered)
  show (h2dMachine t slot).wp _ _ (match h2dEntryBus (w₁.platform.devs slot) with
    | .error err => pure err
    | .ok bus => rest bus) _
  split
  · exact Machine.wp_done silent_stable silent fun _ => outcome_of_no_deliveries
  · rename_i bus passed
    have ready : Delivering slot (w₁.platform.devs slot) bus
        { w₁ with checked := some (w₁.platform.devs slot), disturbed := false } := by
      refine ⟨rfl, fun _ => (h2dEntryBus_ok passed).1, ?_, ?_, ?_⟩
      · simp [silent]
      · simp [silent]
      · simp [silent]
    apply Machine.wp_mono (Machine.wp_calls (delivering_stable _ bus) (fun _ _ _ _ => trivial)
      (fun w op reply w' allowed holds => delivering_answer w op reply w' allowed holds)
      (later bus) ready)
    intro _ w' holds
    exact holds.outcome passed

theorem H2dCall.wp (call : H2dCall) (addressed : h2dSlot call.slotId = some index)
    {w : H2dWorld} (silent : w.deliveries = []) :
    (h2dMachine t index).wp (fun _ _ => True) (fun _ => CallOutcome) call.program w := by
  have stopped : ∀ err, (h2dMachine t index).wp (fun _ _ => True) (fun _ => CallOutcome)
      (.done err : H2d Int) w :=
    fun _ => Machine.wp_done silent_stable silent fun _ => outcome_of_no_deliveries
  cases call with
  | sendFile reads req =>
      have addressed : h2dSlot req.slotId = some index := addressed
      simp only [H2dCall.program, pcieIoctlH2dSendFile, addressed]
      split
      · exact stopped _
      · exact checked_wp (fun bus => pcieH2dSendPath_calls bus reads _ _) index rfl silent
  | sendBuffer req =>
      have addressed : h2dSlot req.slotId = some index := addressed
      simp only [H2dCall.program, pcieIoctlH2dSendBuffer, addressed]
      split
      · exact stopped _
      · exact checked_wp (fun bus => pcieH2dSendCopied_calls bus _ _ _) index rfl silent

/-- A call that has returned: its chunks went to the bus of the checked card, and every one that
left before a reboot write to the slot or a DEL on its bus found that very card CONNECTED. -/
theorem h2d_one_card (t : Timing) (index : Fin ambaPciDevMax) (call : H2dCall)
    (start w : H2dWorld) (ret : Int) (addressed : h2dSlot call.slotId = some index)
    (silent : start.deliveries = [])
    (run : (h2dMachine t index).Steps (call.program, start) (.done ret, w)) :
    OneCard w ∧ (w.disturbed = false → ∀ d ∈ w.deliveries, d.disturbed = false) := by
  have outcome := Machine.wp_post (call.wp addressed silent) run
  exact ⟨outcome.card, outcome.calm⟩

/-- What happens around a call in the runs below: a driver step, or cards starting and stopping. -/
inductive H2dMove
  | event (event : Event)
  | running (running : BitVec 32 → Bool)

/-- Everything succeeds, and the file holds two bytes that are read one at a time. -/
def h2dDriver (t : Timing) (index : Fin ambaPciDevMax) :
    Machine.Driver H2dOp H2dOp.Reply H2dWorld H2dMove where
  answer w op :=
    match op with
    | .lockedEntry slot =>
        some (w.platform.devs slot,
          { w with checked := some (w.platform.devs slot), disturbed := false })
    | .h2dXfer bus bytes epAddr =>
        if w.running bus then
          some (0, { w with deliveries := w.deliveries ++
            [⟨bus, epAddr, bytes, w.platform.devs index, w.disturbed⟩] })
        else none
    | .kernelRead pos count => some (.read (if pos < 2 ∧ 0 < count then [1] else []), w)
    | .symbolGet => some (true, w)
    | .filpOpen _ => some ((0 : Int), w)
    | .vmalloc _ => some (true, w)
    | .copyFromUser _ length => some (some (Vector.replicate length 0), w)
    | .symbolPut | .filpClose | .vfree => some ((), w)
    | .spin => none
  interfere move w :=
    match move with
    | .event event =>
        match driveEvent promptReply t w.platform event with
        | none => none
        | some platform =>
            some { w with platform := platform,
                          disturbed := w.disturbed || event.disturbs index }
    | .running running => some { w with running := running }

theorem h2dDriver_sound (t : Timing) (index : Fin ambaPciDevMax) :
    (h2dDriver t index).Sound (h2dMachine t index) where
  answer := by
    intro w op reply w' answered
    cases op with
    | lockedEntry slot =>
        cases answered
        exact ⟨rfl, rfl⟩
    | h2dXfer bus bytes epAddr =>
        simp only [h2dDriver, Option.ite_none_right_eq_some, Option.some.injEq] at answered
        obtain ⟨up, same⟩ := answered
        cases same
        show if w.running bus then _ else _
        rw [if_pos up]
        exact ⟨rfl, rfl⟩
    | kernelRead pos count =>
        cases answered
        refine ⟨?_, rfl⟩
        split
        · rename_i room
          exact room.2
        · exact Nat.zero_le count
    | spin => cases answered
    | _ =>
        cases answered
        rfl
  interfere := by
    intro move w w' moved
    cases move with
    | event event =>
        simp only [h2dDriver] at moved
        split at moved
        · cases moved
        · rename_i platform driven
          cases moved
          exact Or.inl ⟨event, platform, driveEvent_step (fun _ _ _ => trivial) driven, rfl⟩
    | running running =>
        cases moved
        exact Or.inr ⟨running, rfl⟩

/-- A file is sent to slot 0, to which a running card has been added. -/
def sendFileCall : H2dCall :=
  .sendFile 3 ⟨0, 0x8000000, Vector.ofFn fun i => if i.val = 0 then 0x2f else 0⟩

def connectedWorld : H2dWorld where
  platform := (driveEvents promptReply ⟨1000, 1⟩ [.add (cardAt 1 1 ambaPciVirtioDeviceId)]
    (platformInit true)).getD (platformInit true)
  running _ := true

theorem connectedWorld_reachable : Reachable anyReply ⟨1000, 1⟩ connectedWorld.platform :=
  driveEvents_reachable promptReply (fun _ _ _ => trivial)
    [.add (cardAt 1 1 ambaPciVirtioDeviceId)] (.init true) (by rfl)

/-- The card of slot 0 is rebooted and its successor booted. -/
def replacedCard : List (Option H2dMove) :=
  [.event (.reboot 0), .running fun _ => false, .event (.del (cardAt 1 1 ambaPciVirtioDeviceId)),
    .event (.add (cardAt 2 1 ambaPciTargetDeviceId)), .event (.xferFirmware smallRequest 0 0),
    .event (.del (cardAt 2 1 ambaPciTargetDeviceId)),
    .event (.add (cardAt 3 1 ambaPciVirtioDeviceId)), .running fun _ => true].map some

/-- The file is sent, with moves of the surroundings between its two chunks. -/
def sentFile (between : List (Option H2dMove)) : H2d Int × H2dWorld :=
  ((h2dDriver ⟨1000, 1⟩ 0).run (List.replicate 6 none ++ between ++ List.replicate 6 none)
    (sendFileCall.program, connectedWorld)).getD (sendFileCall.program, connectedWorld)

theorem sentFile_steps (between : List (Option H2dMove))
    (ran : ((h2dDriver ⟨1000, 1⟩ 0).run (List.replicate 6 none ++ between ++ List.replicate 6 none)
      (sendFileCall.program, connectedWorld)).isSome = true) :
    (h2dMachine ⟨1000, 1⟩ 0).Steps (sendFileCall.program, connectedWorld) (sentFile between) := by
  obtain ⟨finish, found⟩ := Option.isSome_iff_exists.mp ran
  simp only [sentFile, found, Option.getD_some]
  exact (h2dDriver_sound ⟨1000, 1⟩ 0).steps _ _ _ found

set_option maxRecDepth 4000 in
theorem h2d_one_card_undisturbed :
    (sentFile []).2.deliveries.length = 2 ∧
      ∀ d ∈ (sentFile []).2.deliveries, d.disturbed = false :=
  ⟨by rfl, (h2d_one_card ⟨1000, 1⟩ 0 sendFileCall connectedWorld (sentFile []).2 0 (by rfl) (by rfl)
    (sentFile_steps [] (by rfl))).2 (by rfl)⟩

set_option maxRecDepth 4000 in
/-- The card is replaced between the two chunks: the call returns 0 and its second chunk has gone
to another device instance than the one that was checked. -/
theorem h2d_one_card_replaced :
    ∃ start w, Reachable anyReply ⟨1000, 1⟩ start.platform ∧
      (h2dMachine ⟨1000, 1⟩ 0).Steps (sendFileCall.program, start) (.done 0, w) ∧
      ∃ before, w.checked = some before ∧ ¬ ∀ d ∈ w.deliveries,
        d.entry.state = .connected ∧ d.entry.id = before.id ∧ d.entry.pdev = before.pdev :=
  ⟨connectedWorld, (sentFile replacedCard).2, connectedWorld_reachable,
    sentFile_steps replacedCard (by rfl), connectedWorld.platform.devs 0, by rfl, by decide⟩

end AmbaPci

import AmbaPci.ModuleInit

set_option autoImplicit false

/- What the module itself holds while it is loaded and unloaded, and what the other threads can do
meanwhile. -/
namespace AmbaPci

open Interaction Interaction.Prog Interaction.Machine Interaction.Ledger

/-! The registrations of the module -/

/-- What the module itself holds. -/
structure Registrations where
  mutex : Bool := false
  chrdev : Bool := false
  deviceClass : Bool := false
  cdev : Bool := false
  device : Bool := false
  procRoot : Bool := false
  notifier : Bool := false
  deriving DecidableEq

namespace Registrations

def has (regs : Registrations) : Resource → Bool
  | .mutex => regs.mutex
  | .chrdev => regs.chrdev
  | .deviceClass => regs.deviceClass
  | .cdev => regs.cdev
  | .device => regs.device
  | .procRoot => regs.procRoot
  | .notifier => regs.notifier
  | .mapping _ => false
  | .procDir _ => false

def set (regs : Registrations) : Set Resource := {r | regs.has r = true}

@[simp] theorem mem_set (regs : Registrations) (r : Resource) :
    r ∈ regs.set ↔ regs.has r = true := Iff.rfl

def assign (regs : Registrations) : Resource → Bool → Registrations
  | .mutex, there => { regs with mutex := there }
  | .chrdev, there => { regs with chrdev := there }
  | .deviceClass, there => { regs with deviceClass := there }
  | .cdev, there => { regs with cdev := there }
  | .device, there => { regs with device := there }
  | .procRoot, there => { regs with procRoot := there }
  | .notifier, there => { regs with notifier := there }
  | .mapping _, _ => regs
  | .procDir _, _ => regs

def after (regs : Registrations) : (op : ModuleOp) → op.Reply → Registrations
  | .mutexInit, _ => regs.assign .mutex true
  | .mutexDestroy, _ => regs.assign .mutex false
  | .allocChrdevRegion, ret => regs.assign .chrdev (decide (ret.val = 0))
  | .unregisterChrdevRegion, _ => regs.assign .chrdev false
  | .classCreate, err => regs.assign .deviceClass (Option.isNone err)
  | .classDestroy, _ => regs.assign .deviceClass false
  | .cdevAdd, ret => regs.assign .cdev (decide (ret.val = 0))
  | .cdevDel, _ => regs.assign .cdev false
  | .deviceCreate, err => regs.assign .device (Option.isNone err)
  | .deviceDestroy, _ => regs.assign .device false
  | .procMkdir, made => regs.assign .procRoot made
  | .procRemove, _ => regs.assign .procRoot false
  | .busRegisterNotifier, ret => regs.assign .notifier (decide (ret.val = 0))
  | .busUnregisterNotifier, _ => regs.assign .notifier false
  | _, _ => regs

variable {regs : Registrations} {r : Resource}

theorem has_assign (own : ¬ r.OfSlot) (there : Bool) (other : Resource) :
    (regs.assign r there).has other = if other = r then there else regs.has other := by
  cases r with
  | mapping | procDir => exact (own trivial).elim
  | _ => cases other <;> rfl

theorem assign_self {there : Bool} (same : regs.has r = there) : regs.assign r there = regs := by
  subst same
  cases r with
  | _ => rfl

theorem assign_true (own : ¬ r.OfSlot) : (regs.set \ ∅) ∪ {r} = (regs.assign r true).set := by
  ext other
  by_cases same : other = r
  · simp [has_assign own, same]
  · simp [has_assign own, same]

theorem assign_false (own : ¬ r.OfSlot) : (regs.set \ {r}) ∪ ∅ = (regs.assign r false).set := by
  ext other
  by_cases same : other = r
  · simp [has_assign own, same]
  · simp [has_assign own, same]

theorem assign_refused (own : ¬ r.OfSlot) (fresh : regs.has r = false) :
    (regs.set \ ∅) ∪ ∅ = (regs.assign r false).set := by
  ext other
  by_cases same : other = r
  · simp [has_assign own, same, fresh]
  · simp [has_assign own, same]

/-- What the kernel may grant or refuse. -/
theorem assign_granted (own : ¬ r.OfSlot) (fresh : regs.has r = false) (granted : Prop)
    [Decidable granted] : (regs.set \ ∅) ∪ (if granted then {r} else ∅) =
      (regs.assign r (decide granted)).set := by
  by_cases yes : granted
  · rw [if_pos yes, decide_eq_true yes]
    exact assign_true own
  · rw [if_neg yes, decide_eq_false yes]
    exact assign_refused own fresh

/-- The registrations follow the ledger, as nothing is registered twice. -/
theorem after_set {op : ModuleOp} (ready : moduleLedger.Ready regs.set op) (reply : op.Reply) :
    moduleLedger.after regs.set op reply = (regs.after op reply).set := by
  have barred := ready.barred
  have unset : ∀ r, Disjoint {r} regs.set → regs.has r = false := by
    intro r apart
    simpa using Set.disjoint_singleton_left.mp apart
  have unchanged : (regs.set \ ∅) ∪ ∅ = regs.set := by rw [Set.sdiff_empty, Set.union_empty]
  cases op with
  | mutexInit => exact assign_true id
  | allocChrdevRegion => exact assign_granted id (unset _ barred) (reply.val = 0)
  | cdevAdd => exact assign_granted id (unset _ barred) (reply.val = 0)
  | busRegisterNotifier => exact assign_granted id (unset _ barred) (reply.val = 0)
  | classCreate =>
      cases reply with
      | none => exact assign_true id
      | some err => exact assign_refused id (unset _ barred)
  | deviceCreate =>
      cases reply with
      | none => exact assign_true id
      | some err => exact assign_refused id (unset _ barred)
  | procMkdir =>
      cases reply with
      | true => exact assign_true id
      | false => exact assign_refused id (unset _ barred)
  | mutexDestroy | unregisterChrdevRegion | classDestroy | cdevDel | deviceDestroy | procRemove
  | busUnregisterNotifier => exact assign_false id
  | _ => exact unchanged

end Registrations

/-! What other threads do meanwhile -/

/-- The entry is unused, and its delayed work neither pending nor running. -/
structure Asleep (e : Entry) : Prop where
  sound : SlotSound e
  unused : e.inUse = false
  idle : e.bootTimeoutWork = {}

/-- No slot is in use, and the module holds its registrations only. -/
structure Calm (regs : Registrations) (w : ModuleWorld) : Prop where
  asleep : ∀ index, Asleep (w.table.devs index)
  held : w.held = regs.set
  procRoot : w.table.procRoot = regs.procRoot
  deviceClass : w.deviceClass = regs.deviceClass
  ctrlDev : w.ctrlDev = regs.device

/-- The module holds its registrations, and each slot what is its own. -/
structure Running (regs : Registrations) (w : ModuleWorld) : Prop where
  stocked : Stocked regs.set w.table w.held
  procRoot : w.table.procRoot = regs.procRoot
  deviceClass : w.deviceClass = regs.deviceClass
  ctrlDev : w.ctrlDev = regs.device

/-- A section can only begin while the lock is there, and never uses what is not held. -/
structure Served (t : Timing) (users : Bool) (w : ModuleWorld) : Prop where
  locked : ∀ event : Event, event.Possible users w → Resource.mutex ∈ w.held
  ready : ∀ event op held', event.Possible users w →
    SectionCall slotLedger.machine t w.table w.held event op held' → slotLedger.Ready held' op

variable {regs : Registrations} {w w' : ModuleWorld} {t : Timing} {users : Bool} {event : Event}
variable {index : Fin ambaPciDevMax} {s s' : Platform} {e e' : Entry} {α β : Type}

theorem Registrations.own (regs : Registrations) : ∀ r ∈ regs.set, ¬ r.OfSlot := by
  intro r inside slot
  cases r with
  | mapping | procDir => cases inside
  | _ => exact slot

theorem Registrations.ownHoldings {procRoot : Bool} (same : procRoot = regs.procRoot) :
    OwnHoldings regs.set procRoot := ⟨regs.own, fun present => same.symm.trans present⟩

theorem Asleep.own {told : Prop} (asleep : Asleep e) (move : OwnMove told e e') :
    Asleep e' := by
  have idle := asleep.idle
  cases move with
  | refreshed change same =>
      rw [same asleep.unused]
      exact asleep
  | booted used _ _ _ =>
      rw [asleep.unused] at used
      cases used
  | rebooted _ _ running =>
      rw [(asleep.sound.unused asleep.unused).2.2.2] at running
      cases running
  | timerExpired armed =>
      rw [idle] at armed
      cases armed
  | workStarted queued _ =>
      rw [idle] at queued
      cases queued
  | workRan started =>
      rw [idle] at started
      cases started

theorem Asleep.kept {told : Prop} (asleep : Asleep e) (moved : OwnMoves told e e') :
    Asleep e' := by
  induction moved with
  | refl => exact asleep
  | tail _ last ih => exact ih.own last

theorem Calm.stocked (calm : Calm regs w) : Stocked regs.set w.table w.held := by
  have nothing : ∀ index : Fin ambaPciDevMax, (w.table.devs index).holds index.val = ∅ := by
    intro index
    have asleep := calm.asleep index
    obtain ⟨-, unmapped, bare, -⟩ := asleep.sound.unused asleep.unused
    rw [Entry.holds, unmapped, bare]
    exact Set.union_empty ∅
  refine ⟨Registrations.ownHoldings calm.procRoot, ⟨?_, ?_, ?_⟩, ?_, fun index =>
    (calm.asleep index).sound⟩
  · simp only [nothing, Set.iUnion_empty, Set.union_empty]
    exact calm.held
  · intro index
    rw [nothing]
    exact Set.disjoint_empty _
  · intro index other _
    rw [nothing other]
    exact Set.disjoint_empty _
  · intro index made
    have asleep := calm.asleep index
    rw [(asleep.sound.unused asleep.unused).2.2.1] at made
    cases made

theorem Calm.running (calm : Calm regs w) : Running regs w :=
  ⟨calm.stocked, calm.procRoot, calm.deviceClass, calm.ctrlDev⟩

theorem Running.stable (regs : Registrations) :
    (moduleMachine t users).Stable (Running regs) := by
  rintro w w' running ⟨event, -, step, sameClass, sameDev⟩
  have root : w'.table.procRoot = w.table.procRoot := step.locked.procRoot
  exact ⟨running.stocked.step step, root.trans running.procRoot,
    sameClass.trans running.deviceClass, sameDev.trans running.ctrlDev⟩

theorem Running.mutex (running : Running regs w) (locked : regs.mutex = true) :
    Resource.mutex ∈ w.held := by
  rw [running.stocked.owned.whole]
  exact Or.inl locked

theorem Running.served (running : Running regs w) (locked : regs.mutex = true) :
    Served t users w where
  locked _ _ := running.mutex locked
  ready _ _ _ _ call := call.ready running.stocked

/-- Nothing comes in from the PCI bus, so no slot is taken into use. -/
theorem Calm.stable (quiet : regs.notifier = false) :
    (moduleMachine t users).Stable (Calm regs) := by
  rintro w w' calm ⟨event, possible, step, sameClass, sameDev⟩
  have own : event.isHotplug = false := by
    cases event with
    | add | del =>
        have registered : Resource.notifier ∈ w.held := possible
        rw [calm.held, Registrations.mem_set, Registrations.has, quiet] at registered
        cases registered
    | enumerate => exact possible.elim
    | _ => rfl
  have root : w'.table.procRoot = w.table.procRoot := step.locked.procRoot
  have asleep : ∀ index, Asleep (w'.table.devs index) := fun index =>
    (calm.asleep index).kept (step.locked.ownMoves own index)
  have held := (calm.stocked.step step).free fun index => (asleep index).unused
  exact ⟨asleep, held, root.trans calm.procRoot, sameClass.trans calm.deviceClass,
    sameDev.trans calm.ctrlDev⟩

theorem Calm.served (calm : Calm regs w) (quiet : regs.notifier = false)
    (guarded : regs.mutex = true ∨ regs.cdev = false) : Served t users w := by
  rcases guarded with locked | closed
  · exact calm.running.served locked
  · have impossible : ∀ event : Event, ¬ event.Possible users w := by
      intro event possible
      have idle := fun index => (calm.asleep index).idle
      cases event with
      | add | del =>
          have registered : Resource.notifier ∈ w.held := possible
          rw [calm.held, Registrations.mem_set, Registrations.has, quiet] at registered
          cases registered
      | enumerate => exact possible
      | query | xferFirmware =>
          have opened : Resource.cdev ∈ w.held := possible.2
          rw [calm.held, Registrations.mem_set, Registrations.has, closed] at opened
          cases opened
      | devInfo index | reboot index =>
          have entered : Resource.procDir (some index.val) ∈ w.held := possible
          rw [calm.held] at entered
          cases entered
      | timerExpires index | workStarts index | workRuns index =>
          simp [Event.Possible, idle] at possible
    exact ⟨fun event possible => (impossible event possible).elim,
      fun event _ _ possible => (impossible event possible).elim⟩

/-! The calls of the module's own code -/

/-- No delayed work is pending, and no work function runs. -/
def NoWork (s : Platform) : Prop := ∀ index, (s.devs index).bootTimeoutWork = {}

/-- What holds whenever the module's code is about to call: what the call uses and gives back is
held, so it is for every call of the section it runs, no timeout can come once the lock is gone, and
the other threads can work. -/
structure ModuleReady (t : Timing) (users : Bool) (w : ModuleWorld) (op : ModuleOp) : Prop where
  ready : moduleLedger.Ready w.held op
  scan : op = .enumerateExistedDevs → ∀ present inner next held',
    slotLedger.machine.Steps (pcieEnumerateExistedDevs present w.table, w.held)
      (.call inner next, held') → slotLedger.Ready held' inner
  release : op = .releaseDevs → ∀ inner next held',
    slotLedger.machine.Steps (ambaPciPlatformExitLocked w.table, w.held)
      (.call inner next, held') → slotLedger.Ready held' inner
  finished : op = .mutexDestroy → NoWork w.table
  served : Served t users w

/-- A call that only registers something, takes it back or stores to the module's data. -/
def ModuleOp.Plain : ModuleOp → Prop
  | .pointer _ => False
  | .cancelDelayedWorkSync _ => False
  | .enumerateExistedDevs => False
  | .releaseDevs => False
  | _ => True

theorem Asleep.setDev {s : Platform} {slot : Fin ambaPciDevMax} {e : Entry}
    (asleep : ∀ index, Asleep (s.devs index)) (new : Asleep e)
    (index : Fin ambaPciDevMax) : Asleep ((s.setDev slot e).devs index) := by
  by_cases same : index = slot
  · rw [same, Platform.setDev_same]
    exact new
  · rw [Platform.setDev_other s slot index e same]
    exact asleep index

theorem Calm.answered (calm : Calm regs w) {op : ModuleOp} {reply : op.Reply} (plain : op.Plain)
    (ready : moduleLedger.Ready regs.set op) (answered : moduleAnswer w op reply w') :
    Calm (regs.after op reply) w' := by
  have follows := Registrations.after_set ready reply
  rw [← calm.held] at follows
  obtain ⟨asleep, -, procRoot, deviceClass, ctrlDev⟩ := calm
  cases op with
  | pointer | cancelDelayedWorkSync | enumerateExistedDevs | releaseDevs => exact plain.elim
  | initDelayedWork index =>
      obtain ⟨-, rfl⟩ := answered
      have now := asleep index
      exact ⟨Asleep.setDev asleep ⟨⟨now.sound.unused, now.sound.mapped⟩, now.unused, rfl⟩, follows,
        procRoot, deviceClass, ctrlDev⟩
  | clearId index =>
      obtain ⟨-, rfl⟩ := answered
      have now := asleep index
      exact ⟨Asleep.setDev asleep ⟨⟨now.sound.unused, now.sound.mapped⟩, now.unused, now.idle⟩,
        follows, procRoot, deviceClass, ctrlDev⟩
  | classCreate | classDestroy =>
      obtain ⟨-, rfl⟩ := answered
      exact ⟨asleep, follows, procRoot, rfl, ctrlDev⟩
  | deviceCreate | deviceDestroy =>
      obtain ⟨-, rfl⟩ := answered
      exact ⟨asleep, follows, procRoot, deviceClass, rfl⟩
  | procMkdir | procRemove =>
      obtain ⟨-, rfl⟩ := answered
      exact ⟨asleep, follows, rfl, deviceClass, ctrlDev⟩
  | _ =>
      obtain ⟨-, rfl⟩ := answered
      exact ⟨asleep, follows, procRoot, deviceClass, ctrlDev⟩

/-- What the stores between the calls go by. -/
def Registrations.pointer (regs : Registrations) : Pointer → Bool
  | .procRoot => regs.procRoot
  | .deviceClass => regs.deviceClass
  | .ctrlDev => regs.device

/-- Nothing comes in from the PCI bus, and the lock is there if a process can come in. -/
structure Registrations.Quiet (regs : Registrations) : Prop where
  notifier : regs.notifier = false
  guarded : regs.mutex = true ∨ regs.cdev = false

theorem Calm.ready (calm : Calm regs w) (quiet : regs.Quiet) {op : ModuleOp}
    (ready : moduleLedger.Ready regs.set op) (scan : op ≠ .enumerateExistedDevs)
    (release : op ≠ .releaseDevs) : ModuleReady t users w op where
  ready := by
    rw [calm.held]
    exact ready
  scan here := absurd here scan
  release here := absurd here release
  finished _ index := (calm.asleep index).idle
  served := calm.served quiet.notifier quiet.guarded

theorem ModuleOp.Plain.ne_sections {op : ModuleOp} (plain : op.Plain) :
    op ≠ .enumerateExistedDevs ∧ op ≠ .releaseDevs := by
  constructor
  · rintro rfl
    exact plain
  · rintro rfl
    exact plain

variable {post : α → ModuleWorld → Prop}

theorem calm_done {value : α} (calm : Calm regs w) (quiet : regs.Quiet)
    (holds : ∀ w', Calm regs w' → post value w') :
    (moduleMachine t users).wp (ModuleReady t users) post (.done value) w :=
  wp_done (Calm.stable quiet.notifier) calm holds

theorem calm_call (op : ModuleOp) {next : op.Reply → ModuleCode α} (calm : Calm regs w)
    (quiet : regs.Quiet) (plain : op.Plain) (ready : moduleLedger.Ready regs.set op)
    (resume : ∀ reply w', Calm (regs.after op reply) w' →
      (moduleMachine t users).wp (ModuleReady t users) post (next reply) w') :
    (moduleMachine t users).wp (ModuleReady t users) post (.call op next) w := by
  apply wp_call (Calm.stable quiet.notifier) calm
  · intro w' calm'
    exact calm'.ready quiet ready plain.ne_sections.1 plain.ne_sections.2
  · intro w' reply w'' calm' answered
    exact resume reply w'' (calm'.answered plain ready answered)

theorem calm_perform (op : ModuleOp) {next : op.Reply → ModuleCode α} (calm : Calm regs w)
    (quiet : regs.Quiet) (plain : op.Plain) (ready : moduleLedger.Ready regs.set op)
    (resume : ∀ reply w', Calm (regs.after op reply) w' →
      (moduleMachine t users).wp (ModuleReady t users) post (next reply) w') :
    (moduleMachine t users).wp (ModuleReady t users) post (op.perform >>= next) w :=
  calm_call op calm quiet plain ready resume

theorem calm_pointer (which : Pointer) {next : Bool → ModuleCode α} (calm : Calm regs w)
    (quiet : regs.Quiet)
    (resume : ∀ w', Calm regs w' →
      (moduleMachine t users).wp (ModuleReady t users) post (next (regs.pointer which)) w') :
    (moduleMachine t users).wp (ModuleReady t users) post
      (ModuleOp.perform (.pointer which) >>= next) w := by
  apply wp_perform (Calm.stable quiet.notifier) calm
  · intro w' calm'
    refine calm'.ready quiet ?_ (fun here => nomatch here) (fun here => nomatch here)
    exact ⟨Set.empty_subset _, Set.empty_subset _, Set.empty_disjoint _⟩
  · intro w' set w'' calm' answered
    obtain ⟨read, rfl⟩ := answered
    have known : w''.pointer which = regs.pointer which := by
      cases which with
      | procRoot => exact calm'.procRoot
      | deviceClass => exact calm'.deviceClass
      | ctrlDev => exact calm'.ctrlDev
    rw [read, known]
    exact resume w'' calm'

/-- What is registered is taken back; what is not stays so. -/
theorem performIf_calm (op : ModuleOp) (r : Resource) {flag : Bool} (calm : Calm regs w)
    (known : flag = regs.has r) (plain : op.Plain)
    (ready : flag = true → moduleLedger.Ready regs.set op)
    (gone : ∀ reply, regs.after op reply = regs.assign r false) (quiet : regs.Quiet)
    (quiet' : (regs.assign r false).Quiet) :
    (moduleMachine t users).wp (ModuleReady t users) (fun _ w' => Calm (regs.assign r false) w')
      (ModuleCode.performIf flag op) w := by
  unfold ModuleCode.performIf
  split
  · rename_i set
    apply calm_call op calm quiet plain (ready set)
    intro reply w' calm'
    rw [gone] at calm'
    exact calm_done calm' quiet' fun _ here => here
  · rename_i unset
    have absent : regs.has r = false := known.symm.trans (by simpa using unset)
    rw [← Registrations.assign_self absent] at calm
    exact calm_done calm quiet' fun _ here => here

theorem performIfSet_calm (which : Pointer) (op : ModuleOp) (r : Resource) (calm : Calm regs w)
    (known : regs.pointer which = regs.has r) (plain : op.Plain)
    (ready : regs.pointer which = true → moduleLedger.Ready regs.set op)
    (gone : ∀ reply, regs.after op reply = regs.assign r false) (quiet : regs.Quiet)
    (quiet' : (regs.assign r false).Quiet) :
    (moduleMachine t users).wp (ModuleReady t users) (fun _ w' => Calm (regs.assign r false) w')
      (ModuleCode.performIfSet which op) w :=
  calm_pointer which calm quiet fun _ calm' =>
    performIf_calm op r calm' known plain ready gone quiet quiet'

/-! When a registration can be taken back -/

theorem procRemove_ready (made : regs.procRoot = true) :
    moduleLedger.Ready regs.set .procRemove where
  used := Set.empty_subset _
  released := Set.singleton_subset_iff.mpr made
  barred := by
    rw [Set.disjoint_left]
    rintro _ ⟨name, rfl⟩ inside
    cases inside

theorem deviceDestroy_ready (made : regs.device = true) (inClass : regs.deviceClass = true) :
    moduleLedger.Ready regs.set .deviceDestroy where
  used := Set.singleton_subset_iff.mpr inClass
  released := Set.singleton_subset_iff.mpr made
  barred := Set.empty_disjoint _

theorem cdevDel_ready (added : regs.cdev = true) : moduleLedger.Ready regs.set .cdevDel where
  used := Set.empty_subset _
  released := Set.singleton_subset_iff.mpr added
  barred := Set.empty_disjoint _

theorem classDestroy_ready (made : regs.deviceClass = true) (bare : regs.device = false) :
    moduleLedger.Ready regs.set .classDestroy where
  used := Set.empty_subset _
  released := Set.singleton_subset_iff.mpr made
  barred := by
    apply Set.disjoint_singleton_left.mpr
    simp [Registrations.has, bare]

theorem unregisterChrdevRegion_ready (made : regs.chrdev = true) (closed : regs.cdev = false)
    (bare : regs.device = false) : moduleLedger.Ready regs.set .unregisterChrdevRegion where
  used := Set.empty_subset _
  released := Set.singleton_subset_iff.mpr made
  barred := by
    rw [Set.disjoint_left]
    rintro _ (rfl | rfl) inside
    · simp [Registrations.has, closed] at inside
    · simp [Registrations.has, bare] at inside

theorem mutexDestroy_ready (locked : regs.mutex = true) (closed : regs.cdev = false)
    (quiet : regs.notifier = false) (bare : regs.procRoot = false) :
    moduleLedger.Ready regs.set .mutexDestroy where
  used := Set.empty_subset _
  released := Set.singleton_subset_iff.mpr locked
  barred := by
    rw [Set.disjoint_left]
    rintro _ (rfl | rfl | rfl | ⟨name, rfl⟩) inside
    · simp [Registrations.has, closed] at inside
    · simp [Registrations.has, quiet] at inside
    · simp [Registrations.has, bare] at inside
    · cases inside

/-- Everything registered is taken back, in an order in which nothing is pulled away from under
what still needs it. -/
theorem removeRegistrations_calm (calm : Calm regs w) (quiet : regs.notifier = false)
    (locked : regs.mutex = true) (inClass : regs.device = true → regs.deviceClass = true) :
    (moduleMachine t users).wp (ModuleReady t users) (fun _ w' => Calm {} w')
      (ModuleCode.removeRegistrations regs.chrdev regs.cdev) w := by
  have guarded : ∀ r : Registrations, r.notifier = regs.notifier → r.mutex = regs.mutex →
      r.Quiet := fun r same same' => ⟨same.trans quiet, Or.inl (same'.trans locked)⟩
  apply wp_seq (performIfSet_calm .procRoot .procRemove .procRoot calm rfl trivial
    procRemove_ready (fun _ => rfl) (guarded _ rfl rfl) (guarded _ rfl rfl))
  intro _ w₁ calm₁
  apply wp_seq (performIfSet_calm .ctrlDev .deviceDestroy .device calm₁ rfl trivial
    (fun set => deviceDestroy_ready set (inClass set)) (fun _ => rfl) (guarded _ rfl rfl)
    (guarded _ rfl rfl))
  intro _ w₂ calm₂
  apply wp_seq (performIf_calm .cdevDel .cdev calm₂ rfl trivial cdevDel_ready (fun _ => rfl)
    (guarded _ rfl rfl) (guarded _ rfl rfl))
  intro _ w₃ calm₃
  apply wp_seq (performIfSet_calm .deviceClass .classDestroy .deviceClass calm₃ rfl trivial
    (fun set => classDestroy_ready set rfl) (fun _ => rfl) (guarded _ rfl rfl)
    (guarded _ rfl rfl))
  intro _ w₄ calm₄
  apply wp_seq (performIf_calm .unregisterChrdevRegion .chrdev calm₄ rfl trivial
    (fun set => unregisterChrdevRegion_ready set rfl rfl) (fun _ => rfl) (guarded _ rfl rfl)
    (guarded _ rfl rfl))
  intro _ w₅ calm₅
  apply calm_call .mutexDestroy calm₅ (guarded _ rfl rfl) trivial
    (mutexDestroy_ready locked rfl quiet rfl)
  intro _ w₆ calm₆
  have nothing : Calm {} w₆ := by
    have none := congrArg (Registrations.mk false false false false false false) quiet
    rw [← none]
    exact calm₆
  exact calm_done nothing ⟨rfl, Or.inr rfl⟩ fun _ here => here

end AmbaPci

import AmbaPci.DriverInterleavings
import AmbaPci.HotplugIsolation

set_option autoImplicit false

/- The proc nodes that read an entry without the driver lock and ask the buzz module about its bus.
Hotplug can store into the entry between any two of their reads. -/
namespace AmbaPci

open Interaction Interaction.Prog Interaction.Machine
open TextFormat (Text)

/-- A buzz function called for an entry is asked about the bus of the entry's own slot. -/
def FreeOp.OwnBus : FreeOp → Prop
  | .busNetGet index bus _ => bus = (pciePhysicalSlots index).bus.setWidth 32
  | .busEpinfoRead index bus _ => bus = (pciePhysicalSlots index).bus.setWidth 32
  | _ => True

def DriverOp.OwnBus : DriverOp → Prop
  | .outer op => op.OwnBus
  | _ => True

/-- What a thread relies on between two of its steps. -/
def StoreMove (s s' : DriverState) : Prop :=
  Always s'.state ∧ ∀ index, SlotStored index s.state → SlotStored index s'.state

def readMachine : Machine DriverOp (LockedOp.Reply AccessOp.Reply FreeOp.Reply) DriverState where
  answer s op reply s' :=
    StoreMove s s' ∧
      match op, reply with
      | .outer (.peek index), e => e = (s.state.devs index).seen
      | _, _ => True
  interfere := StoreMove

/-! What the runs do is what the machine does -/

variable {t : Timing} {pciName : PciDev → Text} {procRoot : Bool} {pool : DriverPool}

theorem driverSection_keeps {α : Type} {body : Access α} (known : DriverSection t α body) :
    Keeps body := by
  cases known with
  | notify action pdev => exact Access.pciePciBusNotify_keeps action pdev
  | enumerate present => exact Access.enumerateSlots_keeps present _
  | query => exact .of_proper (Access.queryDevs_proper _)
  | devInfo index => exact .of_proper Access.pcieDevInfoReadLocked_proper
  | xferFirmware req index accepted addressed => exact Access.pcieXferFirmwareLocked_keeps t req
  | reboot index => exact .of_proper Access.pcieRebootLocked_proper
  | h2d index => exact .of_proper ⟨trivial, fun _ => trivial⟩
  | bootTimeout index => exact Access.pcieBootTimeoutFn_keeps

/-- It holds at every moment of every interleaving, also while a section is under way. -/
theorem driverRun_always (run : DriverRun t pciName procRoot pool) : Always pool.shared.state :=
  (driverRun_sequential run).always always_stable
    (fun _ _ s known always => driverSection_keeps known s always) (platformInit_always procRoot)

theorem driverRun_stores (run : DriverRun t pciName procRoot pool) {tid : Nat} {op : AccessOp}
    {next : op.Reply → DriverCode Unit} (turn : pool.threads tid = .call (.inner op) next) :
    op.Stores pool.shared.state :=
  (driverRun_sequential run).guarded always_stable
    (fun _ _ s known always => driverSection_keeps known s always) (platformInit_always procRoot)
    turn

theorem withWork_storeMove {s s' : DriverState} {index : Fin ambaPciDevMax} {work : DelayedWork}
    (always : Always s.state)
    (set : s'.state = s.state.setDev index ((s.state.devs index).withWork work)) :
    StoreMove s s' := by
  unfold StoreMove
  rw [set]
  refine ⟨always.setDev ((always index).withWork work), fun other stored => ?_⟩
  exact stored.setDev fun here => here

theorem same_storeMove {s s' : DriverState} (always : Always s.state) (kept : s'.state = s.state) :
    StoreMove s s' := by
  unfold StoreMove
  rw [kept]
  exact ⟨always, fun _ stored => stored⟩

theorem freeAnswer_storeMove {s s' : DriverState} {op : FreeOp} {reply : op.Reply}
    (always : Always s.state) (answered : freeAnswer s.state op reply s'.state) :
    StoreMove s s' := by
  cases op with
  | peek index => exact same_storeMove always answered.2
  | workBegins index => exact withWork_storeMove always answered.2.2
  | _ => exact same_storeMove always answered

theorem driverRun_answers (run : DriverRun t pciName procRoot pool) {tid : Nat} {op : DriverOp}
    {next : LockedOp.Reply AccessOp.Reply FreeOp.Reply op → DriverCode Unit}
    {reply : LockedOp.Reply AccessOp.Reply FreeOp.Reply op} {s : DriverState}
    (turn : pool.threads tid = .call op next)
    (answered : driverSystem.answer tid pool.shared op reply s) :
    readMachine.answer pool.shared op reply s := by
  have always := driverRun_always run
  cases op with
  | lock =>
      have taken : s = { pool.shared with owner := some tid } := answered.2
      exact ⟨same_storeMove always (by rw [taken]), trivial⟩
  | unlock =>
      have left : s = { pool.shared with owner := none } := answered
      exact ⟨same_storeMove always (by rw [left]), trivial⟩
  | inner op =>
      have stores := driverRun_stores run turn
      exact ⟨⟨stores.always always answered.1,
        fun _ stored => stores.slotStored stored answered.1⟩, trivial⟩
  | outer op =>
      refine ⟨freeAnswer_storeMove always answered.1, ?_⟩
      cases op with
      | peek index => exact answered.1.1
      | _ => trivial

/-! The readers -/

def AlwaysHere (s : DriverState) : Prop := Always s.state

def StoredHere (index : Fin ambaPciDevMax) (s : DriverState) : Prop :=
  Always s.state ∧ SlotStored index s.state

theorem alwaysHere_stable : readMachine.Stable AlwaysHere := fun _ _ _ moved => moved.1

theorem storedHere_stable (index : Fin ambaPciDevMax) : readMachine.Stable (StoredHere index) :=
  fun _ _ here moved => ⟨moved.1, moved.2 index here.2⟩

/-- It never asks a buzz function about another slot's bus. -/
def AsksOwnBus {α : Type} (program : DriverCode α) (s : DriverState) : Prop :=
  readMachine.wp (fun _ op => op.OwnBus) (fun _ => AlwaysHere) program s

variable {s : DriverState}

theorem asks_done {α : Type} {value : α} (always : Always s.state) :
    AsksOwnBus (.done value : DriverCode α) s :=
  wp_done alwaysHere_stable always fun _ here => here

/-- A step without the lock that is no buzz call. -/
theorem asks_free {α : Type} (op : FreeOp) {next : op.Reply → DriverCode α} (own : op.OwnBus)
    (always : Always s.state)
    (after : ∀ reply s', Always s'.state → AsksOwnBus (next reply) s') :
    AsksOwnBus (DriverCode.free op >>= next) s :=
  wp_perform alwaysHere_stable always (fun _ _ => own) fun _ reply s' _ answered =>
    after reply s' answered.1.1

theorem asks_calls {α : Type} {program : DriverCode α} (calls : program.Calls DriverOp.OwnBus)
    (always : Always s.state) : AsksOwnBus program s :=
  wp_calls alwaysHere_stable (fun _ _ own _ => own) (fun _ _ _ _ _ _ answered => answered.1.1) calls
    always

theorem free_calls (op : FreeOp) (own : op.OwnBus) :
    (DriverCode.free op).Calls DriverOp.OwnBus := ⟨own, fun _ => trivial⟩

theorem asks_bind {α β : Type} {first : DriverCode α} {next : α → DriverCode β}
    (before : AsksOwnBus first s)
    (after : ∀ value s', Always s'.state → AsksOwnBus (next value) s') :
    AsksOwnBus (first >>= next) s := wp_seq before after

/-- The read of a field of an entry whose slot has been stored. -/
theorem wp_peek {α : Type} {index : Fin ambaPciDevMax} {next : Entry → DriverCode α}
    {guard : DriverState → DriverOp → Prop} {post : α → DriverState → Prop}
    (ready : ∀ s, guard s (.outer (.peek index))) (stored : StoredHere index s)
    (after : ∀ e s', EntryAlways index e → e.phySlot = pciePhysicalSlots index →
      StoredHere index s' → readMachine.wp guard post (next e) s') :
    readMachine.wp guard post (DriverCode.peek index >>= next) s := by
  apply wp_perform (storedHere_stable index) stored (fun s _ => ready s)
  intro s₁ reply s₂ here answered
  obtain ⟨moved, same⟩ := answered
  have seen : reply = (s₁.state.devs index).seen := same
  apply after
  · rw [seen]
    exact (here.1 index).withWork {}
  · rw [seen]
    exact here.2
  · exact ⟨moved.1, moved.2 index here.2⟩

/-- Whatever hotplug stores between the reads, `bus` is that of the slot. -/
theorem entryBus_own {index : Fin ambaPciDevMax} (stored : StoredHere index s) :
    readMachine.wp (fun _ op => op.OwnBus)
      (fun bus s' => bus = (pciePhysicalSlots index).bus.setWidth 32 ∧ StoredHere index s')
      (DriverCode.entryBus index) s := by
  apply wp_peek (fun _ => trivial) stored; intro e s₁ _ _ stored
  split
  · apply wp_peek (fun _ => trivial) stored; intro e s₂ always _ stored
    split
    · exact wp_call (storedHere_stable index) stored (fun _ _ => trivial)
        fun _ impossible => nomatch impossible
    · rename_i pdev attached
      have bus := always.bus pdev attached
      exact wp_done (storedHere_stable index) stored fun _ here => ⟨by rw [bus], here⟩
  · apply wp_peek (fun _ => trivial) stored; intro e s₂ _ slot stored
    exact wp_done (storedHere_stable index) stored fun _ here => ⟨by rw [slot], here⟩

theorem buzzCall_asks {symbol : BuzzSymbol} {ask : DriverCode (Option Text)}
    (asks : ∀ s', Always s'.state → AsksOwnBus ask s') (always : Always s.state) :
    AsksOwnBus (DriverCode.buzzCall symbol ask) s := by
  apply asks_free (.symbolGet symbol) trivial always; intro found s₁ always
  split
  · exact asks_done always
  · apply asks_bind (asks s₁ always); intro reply s₂ always
    exact asks_free (.symbolPut symbol) trivial always fun _ _ => asks_done

/-- A reader that asks about the entry's bus once it has found the entry in use. -/
theorem reader_asks {α : Type} {index : Fin ambaPciDevMax} {unused : α}
    {next : BitVec 32 → DriverCode α} (always : Always s.state)
    (asks : ∀ s', Always s'.state →
      AsksOwnBus (next ((pciePhysicalSlots index).bus.setWidth 32)) s') :
    AsksOwnBus (do
      let e ← DriverCode.peek index
      if e.inUse = false then pure unused
      else do
        let bus ← DriverCode.entryBus index
        next bus) s := by
  apply wp_perform alwaysHere_stable always (fun _ _ => trivial)
  intro s₁ reply s₂ here answered
  obtain ⟨moved, same⟩ := answered
  split
  · exact asks_done moved.1
  · rename_i used
    have seen : reply = (s₁.state.devs index).seen := same
    have inUse : (s₁.state.devs index).inUse = true := by
      rw [seen] at used
      exact Bool.eq_true_of_not_eq_false used
    have stored : StoredHere index s₂ := ⟨moved.1, moved.2 index ((here index).slot inUse)⟩
    apply wp_seq (entryBus_own stored)
    rintro _ s₃ ⟨rfl, stored⟩
    exact asks s₃ stored.1

theorem pcieNetReadEntry_asks (index : Fin ambaPciDevMax) (size : Nat) (always : Always s.state) :
    AsksOwnBus (DriverCode.pcieNetReadEntry index size) s := by
  apply reader_asks always; intro s₁ always
  have own : (FreeOp.busNetGet index ((pciePhysicalSlots index).bus.setWidth 32)
    DriverCode.ambaPciNetInfoMax).OwnBus := rfl
  apply asks_bind (buzzCall_asks (fun _ => asks_calls (free_calls _ own)) always)
  intro net s₂ always
  split
  · exact asks_done always
  · exact asks_done always

theorem pcieDevLogReadEntry_asks (index : Fin ambaPciDevMax) (size : Nat)
    (always : Always s.state) : AsksOwnBus (DriverCode.pcieDevLogReadEntry index size) s := by
  apply reader_asks always; intro s₁ always
  have own : (FreeOp.busEpinfoRead index ((pciePhysicalSlots index).bus.setWidth 32) size).OwnBus :=
    rfl
  apply asks_bind (buzzCall_asks (fun _ => asks_calls (free_calls _ own)) always)
  intro log s₂ always
  split
  · exact asks_done always
  · exact asks_done always

theorem simpleReadFromBuffer_asks (index : Fin ambaPciDevMax) (node : ProcNode)
    (nbytes ppos : Nat) (buffer : Text) (always : Always s.state) :
    AsksOwnBus (DriverCode.simpleReadFromBuffer index node nbytes ppos buffer) s := by
  unfold DriverCode.simpleReadFromBuffer
  dsimp only
  split
  · exact asks_done always
  · apply asks_free (.copyToUser index node _) trivial always; intro left s₁ always
    split
    · exact asks_done always
    · exact asks_done always

theorem pcieProcRead_asks {index : Fin ambaPciDevMax} {node : ProcNode} {size : Nat}
    {reader : Nat → DriverCode (Except Int Text)}
    (reads : ∀ s', Always s'.state → AsksOwnBus (reader size) s') (nbytes ppos : Nat)
    (always : Always s.state) :
    AsksOwnBus (DriverCode.call (DriverCode.pcieProcRead index node size reader nbytes ppos))
      s := by
  refine asks_bind (asks_free (.kernel (.kmalloc size)) trivial always
    fun kbuf s₁ always => ?_) fun _ _ => asks_done
  split
  · exact asks_done always
  · apply asks_bind (reads s₁ always); intro len s₂ always
    split
    · exact asks_done always
    · exact simpleReadFromBuffer_asks _ _ _ _ _ always

/-! All programs -/

theorem DriverOp.Plain.ownBus {op : DriverOp} (plain : op.Plain) : op.OwnBus := by
  cases op with
  | outer op =>
      cases op with
      | busNetGet | busEpinfoRead => exact plain.elim
      | _ => trivial
  | _ => trivial

theorem asks_plain {α : Type} {program : DriverCode α} (calls : program.Calls DriverOp.Plain)
    (always : Always s.state) : AsksOwnBus program s :=
  asks_calls (calls.mono fun _ => DriverOp.Plain.ownBus) always

theorem h2dStep_calls (op : H2dOp) : (DriverCode.h2dStep op).Calls DriverOp.OwnBus := by
  cases op with
  | lockedEntry index => exact underLock_plain.mono fun _ => DriverOp.Plain.ownBus
  | _ => exact free_calls _ trivial

theorem driverRuns_asks {program : DriverCode Unit} (runs : DriverRuns t pciName program)
    (always : Always s.state) : AsksOwnBus program s := by
  cases runs with
  | notify action pdev => exact asks_plain underLock_plain always
  | enumerate present => exact asks_plain underLock_plain always
  | query argp => exact asks_plain (call_plain (pcieIoctlQueryPlatformInfo_plain argp)) always
  | xferFirmware argp => exact asks_plain (call_plain (pcieIoctlXferFirmware_plain t argp)) always
  | h2dSend ioctl =>
      refine asks_calls (Calls.bind ?_ fun _ => trivial) always
      exact Calls.interp (fun op _ => h2dStep_calls op) (calls_anything _)
  | statusRead index nbytes ppos =>
      exact pcieProcRead_asks (fun _ always => asks_free (.peek index) trivial always
        fun _ _ => asks_done) nbytes ppos always
  | devInfoRead index nbytes ppos =>
      refine pcieProcRead_asks (fun _ always => asks_plain ?_ always) nbytes ppos always
      exact underLock_plain.bind fun _ => trivial
  | netRead index nbytes ppos =>
      exact pcieProcRead_asks (fun _ => pcieNetReadEntry_asks index _) nbytes ppos always
  | devLogRead index nbytes ppos =>
      exact pcieProcRead_asks (fun _ => pcieDevLogReadEntry_asks index _) nbytes ppos always
  | rebootWrite index buf count ppos =>
      exact asks_plain (call_plain (pcieProcRebootWrite_plain t index buf count ppos)) always
  | bootTimeout index => exact asks_plain (bootTimeout_plain index) always

/-- However hotplug and the unlocked reads interleave, no buzz function is asked about the bus of
another slot than that of the entry it is called for. -/
theorem buzz_calls_own_bus (t : Timing) (pciName : PciDev → Text) (procRoot : Bool)
    (pool : DriverPool) (run : DriverRun t pciName procRoot pool) (tid : Nat) (op : FreeOp)
    (next : op.Reply → DriverCode Unit) (turn : pool.threads tid = .call (.outer op) next) :
    op.OwnBus := by
  have asks : AsksOwnBus (pool.threads tid) pool.shared := by
    refine Pool.Reach.wp_within (N := readMachine) ?_ ?_ ?_ ?_ run tid
    · intro pool tid op next reply s run turn answered
      have here := driverRun_answers run turn answered
      exact ⟨here, here.1⟩
    · intro pool s run moved
      obtain ⟨index, -, set⟩ := moved.1
      exact withWork_storeMove (driverRun_always run) set
    · exact fun tid => asks_done (platformInit_always procRoot)
    · exact fun pool program run runs => driverRuns_asks runs (driverRun_always run)
  rw [turn] at asks
  exact (asks _ .refl).1

theorem free_solo {s : Platform} {tid : Nat} (op : FreeOp) (reply : op.Reply)
    {next : op.Reply → DriverCode Unit} {finish : DriverCode Unit × DriverState}
    (answered : freeAnswer s op reply s)
    (rest : (Pool.solo driverSystem tid).Steps (next reply, ⟨none, s⟩) finish) :
    (Pool.solo driverSystem tid).Steps (.call (.outer op) next, ⟨none, s⟩) finish :=
  outer_solo tid (s := ⟨none, s⟩) answered rest

/-- A read of "net" comes to its buzz call where a card is attached. -/
theorem netRead_turn {s : Platform} {index : Fin ambaPciDevMax} (pdev : PciDev)
    (used : (s.devs index).inUse = true) (attached : (s.devs index).pdev = some pdev) (tid : Nat) :
    ∃ next, (Pool.solo driverSystem tid).Steps
      (DriverCode.call (DriverCode.pcieProcNetRead index 0 0), ⟨none, s⟩)
      (.call (.outer (.busNetGet index (pdev.bus.setWidth 32) 32)) next, ⟨none, s⟩) := by
  have looked : freeAnswer s (.peek index) (s.devs index).seen s := ⟨rfl, rfl⟩
  have inUse : ¬ (s.devs index).seen.inUse = false := by
    have same : (s.devs index).seen.inUse = true := used
    rw [same]
    decide
  have there : (s.devs index).seen.pdev = some pdev := attached
  have isAttached : (s.devs index).seen.pdev.isSome = true := by
    rw [there]
    rfl
  apply Exists.intro
  refine free_solo (.kernel (.kmalloc pageSize)) true rfl ?_
  refine free_solo _ _ looked ?_
  dsimp only [Prog.bind]
  rw [if_neg inUse]
  refine free_solo _ _ looked ?_
  dsimp only [Prog.bind]
  rw [if_pos isAttached]
  refine free_solo _ _ looked ?_
  dsimp only [Prog.bind]
  rw [there]
  refine free_solo (.symbolGet .busNetGet) true rfl ?_
  exact .refl

theorem buzz_calls_own_bus_rom :
    ∃ procRoot pool tid next, DriverRun ⟨1000, 1⟩ (fun _ => []) procRoot pool ∧
      pool.threads tid = .call (.outer (.busNetGet 0 1 32)) next ∧
      (FreeOp.busNetGet 0 1 32).OwnBus := by
  obtain ⟨procRoot, pool, run, shows⟩ := shows_reachable (fun _ => []) romTable_reachable
  obtain ⟨pool', tid, next, run', turn⟩ := shows.turn run (.netRead 0 0 0)
    (netRead_turn (cardAt 1 1 ambaPciTargetDeviceId) (by decide) (by decide))
  exact ⟨procRoot, pool', tid, next, run', turn, buzz_calls_own_bus _ _ _ _ run' tid _ next turn⟩

end AmbaPci

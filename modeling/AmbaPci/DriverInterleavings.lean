import AmbaPci.AccessRules
import AmbaPci.DriverAccesses
import AmbaPci.SlotLifecycle

set_option autoImplicit false

/- The threads of the driver in any interleaving of their single accesses: where the lock is free,
the table is one that whole sections lead to, and every such table comes up. -/
namespace AmbaPci

open Interaction Interaction.Prog
open Relation (ReflTransGen)
open TextFormat (Text)

/-- A step without the lock. The work function is called where its work is queued and it is not
running. -/
def freeAnswer : Platform → (op : FreeOp) → op.Reply → Platform → Prop
  | s, .peek index, e, s' => e = (s.devs index).seen ∧ s' = s
  | s, .workBegins index, _, s' =>
      (s.devs index).bootTimeoutWork.pending = .queued ∧
        (s.devs index).bootTimeoutWork.running = false ∧
        s' = s.setDev index ((s.devs index).withWork { pending := .idle, running := true })
  | s, _, _, s' => s' = s

/-- A timer expires. -/
def TimerExpires (s s' : Platform) : Prop :=
  ∃ index, (s.devs index).bootTimeoutWork.pending = .armed ∧
    s' = s.setDev index ((s.devs index).withWork
      { (s.devs index).bootTimeoutWork with pending := .queued })

abbrev DriverState : Type := LockedState Nat Platform

def driverSystem : System Nat (LockedOp AccessOp FreeOp)
    (LockedOp.Reply AccessOp.Reply FreeOp.Reply) (LockedState Nat Platform) :=
  lockedSystem accessMachine TimerExpires freeAnswer

abbrev DriverPool : Type :=
  Pool Nat (LockedOp AccessOp FreeOp) (LockedOp.Reply AccessOp.Reply FreeOp.Reply)
    (LockedState Nat Platform) Unit

/-- No thread runs, and the table is zeroed. -/
def initialPool (procRoot : Bool) : DriverPool where
  threads _ := .done ()
  shared := ⟨none, platformInit procRoot⟩

/-- The pools that any interleaving leads to. -/
abbrev DriverRun (t : Timing) (pciName : PciDev → Text) (procRoot : Bool) : DriverPool → Prop :=
  Pool.Reach driverSystem (DriverRuns t pciName) (fun _ _ _ => True) (initialPool procRoot)

variable {t : Timing} {pciName : PciDev → Text}

/-! The threads take the lock for sections only -/

/-- What is copied to user space comes from one section's result. -/
def CopiesResult (results : (α : Type) → Access α → α → Prop) (pciName : PciDev → Text) :
    FreeOp → Prop
  | .copyInfo info => ∃ devs, results _ Access.pcieQueryPlatformInfoLocked devs ∧
      info = ⟨1, BitVec.ofNat 32 (devs.countP fun dev => dev.isValid ≠ 0), devs⟩
  | .copyToUser index .devInfo bytes => ∃ (result : DevInfo × Entry) (nbytes ppos : Nat),
      results _ (Access.pcieDevInfoReadLocked index) result ∧
      bytes = simpleReadPiece nbytes ppos (pcieDevInfoText pciName pageSize result.1 result.2)
  | _ => True

def driverDiscipline (t : Timing) (pciName : PciDev → Text)
    (results : (α : Type) → Access α → α → Prop) : Discipline AccessOp FreeOp AccessOp.Reply where
  sections := DriverSection t
  results := results
  allowed := CopiesResult results pciName

abbrev DriverOutside (t : Timing) (pciName : PciDev → Text)
    (results : (α : Type) → Access α → α → Prop) {α : Type} : DriverCode α → Prop :=
  Outside (driverDiscipline t pciName results)

variable {results : (α : Type) → Access α → α → Prop}

theorem free_outside (op : FreeOp) (met : CopiesResult results pciName op) :
    DriverOutside t pciName results (DriverCode.free op) := .outer met fun reply => .done reply

theorem free_bind_outside {β : Type} (op : FreeOp) {next : op.Reply → DriverCode β}
    (met : CopiesResult results pciName op)
    (after : ∀ reply, DriverOutside t pciName results (next reply)) :
    DriverOutside t pciName results (DriverCode.free op >>= next) := .outer met after

theorem peek_bind_outside {β : Type} {index : Fin ambaPciDevMax} {next : Entry → DriverCode β}
    (after : ∀ e, DriverOutside t pciName results (next e)) :
    DriverOutside t pciName results (DriverCode.peek index >>= next) :=
  free_bind_outside (.peek index) trivial after

theorem underLock_bind_outside {α β : Type} {body : Access α} {next : α → DriverCode β}
    (known : DriverSection t α body)
    (after : ∀ value, results α body value → DriverOutside t pciName results (next value)) :
    DriverOutside t pciName results (DriverCode.underLock body >>= next) := by
  unfold DriverCode.underLock
  rw [locked_bind]
  exact .locked known after

theorem underLock_outside {β : Type} {body : Access β} (known : DriverSection t β body) :
    DriverOutside t pciName results (DriverCode.underLock body) :=
  .locked known fun value _ => .done value

theorem call_outside {α : Type} {program : DriverCode α}
    (outside : DriverOutside t pciName results program) :
    DriverOutside t pciName results (DriverCode.call program) := outside.bind fun _ => .done ()

theorem nullDereference_outside {α : Type} :
    DriverOutside t pciName results (DriverCode.nullDereference : DriverCode α) :=
  .outer trivial fun impossible => nomatch impossible

/-- What has been checked of a request before its section is run. -/
def CallOp.Checked : CallOp → Prop
  | .xferFirmwareLocked req index => fwXferAccepted req = true ∧ req.slotId.toNat = index.val
  | _ => True

theorem callStep_outside {op : CallOp} (checked : op.Checked) :
    DriverOutside t pciName results (DriverCode.callStep t op) := by
  cases op with
  | inUse index => exact peek_bind_outside fun _ => .done _
  | readPdev index => exact peek_bind_outside fun _ => .done _
  | rebootLocked index => exact underLock_outside (.reboot index)
  | xferFirmwareLocked req index =>
      exact underLock_outside (.xferFirmware req index checked.1 checked.2)
  | stopAndRemove pdev =>
      cases pdev with
      | none => exact nullDereference_outside
      | some pdev =>
          apply free_bind_outside (.isAdded pdev) trivial; intro added
          split
          · exact underLock_outside (.notify .delDevice pdev)
          · exact .done _
  | kernel op => exact free_outside _ trivial

theorem pcieIoctlXferFirmwareCall_checked (argp : Option FwXfer) :
    (pcieIoctlXferFirmwareCall argp).Calls CallOp.Checked := by
  unfold pcieIoctlXferFirmwareCall
  split
  · trivial
  · rename_i req
    split
    · rename_i inside
      by_cases accepted : fwXferAccepted req = false
      · rw [if_pos accepted]
        trivial
      · rw [if_neg accepted]
        refine Calls.perform ?_ fun ret => ?_
        · exact ⟨by simpa using accepted, rfl⟩
        · split
          · trivial
          · apply Calls.perform trivial; intro tested
            split
            · trivial
            · apply Calls.perform trivial; intro pdev
              exact Calls.perform trivial fun _ => trivial
    · trivial

theorem pcieProcRebootWrite_checked (index : Fin ambaPciDevMax) (buf : BitVec 64)
    (count ppos : Nat) : (pcieProcRebootWrite index buf count ppos).Calls CallOp.Checked := by
  unfold pcieProcRebootWrite
  split
  · trivial
  · split
    · trivial
    · apply Calls.perform trivial; intro kbuf
      split
      · trivial
      · apply Calls.perform trivial; intro copied
        split
        · trivial
        · unfold pcieRebootWriteEntry
          apply Calls.perform trivial; intro inUse
          split
          · trivial
          · split
            · trivial
            · split
              · trivial
              · apply Calls.perform trivial; intro ret
                split
                · trivial
                · apply Calls.perform trivial; intro pdev
                  exact Calls.perform trivial fun _ => trivial

theorem h2dStep_outside (op : H2dOp) : DriverOutside t pciName results (DriverCode.h2dStep op) := by
  cases op with
  | lockedEntry index => exact underLock_outside (.h2d index)
  | _ => exact free_outside _ trivial

theorem simpleReadFromBuffer_outside {index : Fin ambaPciDevMax} {node : ProcNode}
    (nbytes ppos : Nat) {buffer : Text}
    (met : CopiesResult results pciName
      (.copyToUser index node (simpleReadPiece nbytes ppos buffer))) :
    DriverOutside t pciName results
      (DriverCode.simpleReadFromBuffer index node nbytes ppos buffer) := by
  unfold DriverCode.simpleReadFromBuffer
  dsimp only
  split
  · exact .done _
  · apply free_bind_outside _ met; intro left
    split
    · exact .done _
    · exact .done _

/-- A node other than dev_info. -/
theorem pcieProcRead_outside {index : Fin ambaPciDevMax} (node : ProcNode) {size : Nat}
    {reader : Nat → DriverCode (Except Int Text)}
    (reads : DriverOutside t pciName results (reader size))
    (met : ∀ bytes, CopiesResult results pciName (.copyToUser index node bytes))
    (nbytes ppos : Nat) :
    DriverOutside t pciName results
      (DriverCode.pcieProcRead index node size reader nbytes ppos) := by
  apply free_bind_outside (.kernel (.kmalloc size)) trivial; intro kbuf
  split
  · exact .done _
  · apply reads.bind; intro len
    split
    · exact .done _
    · exact simpleReadFromBuffer_outside nbytes ppos (met _)

theorem pcieProcDevInfoRead_outside (index : Fin ambaPciDevMax) (nbytes ppos : Nat) :
    DriverOutside t pciName results (DriverCode.pcieProcDevInfoRead pciName index nbytes ppos) := by
  apply free_bind_outside (.kernel (.kmalloc pageSize)) trivial; intro kbuf
  split
  · exact .done _
  · unfold DriverCode.pcieDevInfoReadEntry
    rw [Prog.bind_assoc]
    apply underLock_bind_outside (.devInfo index); intro result returned
    exact simpleReadFromBuffer_outside nbytes ppos ⟨result, nbytes, ppos, returned, rfl⟩

theorem pcieStatusReadEntry_outside (index : Fin ambaPciDevMax) (size : Nat) :
    DriverOutside t pciName results (DriverCode.pcieStatusReadEntry index size) :=
  peek_bind_outside fun _ => .done _

theorem entryBus_outside (index : Fin ambaPciDevMax) :
    DriverOutside t pciName results (DriverCode.entryBus index) := by
  apply peek_bind_outside; intro e
  split
  · apply peek_bind_outside; intro e
    split
    · exact nullDereference_outside
    · exact .done _
  · exact peek_bind_outside fun e => .done _

theorem buzzCall_outside {symbol : BuzzSymbol} {ask : DriverCode (Option Text)}
    (asks : DriverOutside t pciName results ask) :
    DriverOutside t pciName results (DriverCode.buzzCall symbol ask) := by
  apply free_bind_outside (.symbolGet symbol) trivial; intro found
  split
  · exact .done _
  · exact asks.bind fun reply =>
      free_bind_outside (.symbolPut symbol) trivial fun _ => .done _

theorem pcieNetReadEntry_outside (index : Fin ambaPciDevMax) (size : Nat) :
    DriverOutside t pciName results (DriverCode.pcieNetReadEntry index size) := by
  apply peek_bind_outside; intro e
  split
  · exact .done _
  · apply (entryBus_outside index).bind; intro bus
    apply (buzzCall_outside (free_outside (.busNetGet _ _ _) trivial)).bind; intro net
    split
    · exact .done _
    · exact .done _

theorem pcieDevLogReadEntry_outside (index : Fin ambaPciDevMax) (size : Nat) :
    DriverOutside t pciName results (DriverCode.pcieDevLogReadEntry index size) := by
  apply peek_bind_outside; intro e
  split
  · exact .done _
  · apply (entryBus_outside index).bind; intro bus
    apply (buzzCall_outside (free_outside (.busEpinfoRead _ _ _) trivial)).bind; intro log
    split
    · exact .done _
    · exact .done _

theorem driverRuns_outside {program : DriverCode Unit} (runs : DriverRuns t pciName program) :
    DriverOutside t pciName results program := by
  cases runs with
  | notify action pdev => exact underLock_outside (.notify action pdev)
  | enumerate present => exact underLock_outside (.enumerate present)
  | query argp =>
      apply call_outside
      unfold DriverCode.pcieIoctlQueryPlatformInfo
      split
      · exact .done _
      · apply underLock_bind_outside .query; intro devs returned
        apply free_bind_outside (.copyInfo _) ⟨devs, returned, rfl⟩; intro copied
        split
        · exact .done _
        · exact .done _
  | xferFirmware argp =>
      exact call_outside (Outside.interp (fun _ checked => callStep_outside checked)
        (pcieIoctlXferFirmwareCall_checked argp))
  | h2dSend ioctl =>
      exact call_outside (Outside.interp (fun op _ => h2dStep_outside op)
        (calls_anything ioctl.program))
  | statusRead index nbytes ppos =>
      have reads :
          DriverOutside t pciName results (DriverCode.pcieStatusReadEntry index pageSize) :=
        pcieStatusReadEntry_outside index pageSize
      exact call_outside (pcieProcRead_outside .status reads (fun _ => trivial) _ _)
  | devInfoRead index nbytes ppos =>
      exact call_outside (pcieProcDevInfoRead_outside index nbytes ppos)
  | netRead index nbytes ppos =>
      have reads : DriverOutside t pciName results (DriverCode.pcieNetReadEntry index pageSize) :=
        pcieNetReadEntry_outside index pageSize
      exact call_outside (pcieProcRead_outside .net reads (fun _ => trivial) _ _)
  | devLogRead index nbytes ppos =>
      have reads :
          DriverOutside t pciName results (DriverCode.pcieDevLogReadEntry index 0x200000) :=
        pcieDevLogReadEntry_outside index 0x200000
      exact call_outside (pcieProcRead_outside .devLog reads (fun _ => trivial) _ _)
  | rebootWrite index buf count ppos =>
      exact call_outside (Outside.interp (fun _ checked => callStep_outside checked)
        (pcieProcRebootWrite_checked index buf count ppos))
  | bootTimeout index =>
      exact free_bind_outside (.workBegins index) trivial fun _ =>
        underLock_outside (.bootTimeout index)

/-! Every section is atomic -/

theorem driverSection_atomic {α : Type} {body : Access α} (known : DriverSection t α body) :
    body.Atomic AccessOp.Early NoAccess := by
  cases known with
  | notify action pdev => exact .of_calls (Access.pciePciBusNotify_early action pdev)
  | enumerate present => exact .of_calls (Access.enumerateSlots_early present _)
  | query => exact .of_calls (Access.early_of_proper (Access.queryDevs_proper _))
  | devInfo index =>
      exact .of_calls (Access.early_of_proper Access.pcieDevInfoReadLocked_proper)
  | xferFirmware req index accepted addressed => exact Access.pcieXferFirmwareLocked_atomic t req
  | reboot index => exact .of_calls (Access.early_of_proper Access.pcieRebootLocked_proper)
  | h2d index => exact .of_calls ⟨trivial, fun _ => trivial⟩
  | bootTimeout index => exact Access.pcieBootTimeoutFn_atomic

theorem timerExpires_drift {s s' : Platform} (moved : TimerExpires s s') :
    accessMachine.Drift s s' := by
  obtain ⟨index, armed, rfl⟩ := moved
  exact .single (.timerExpires armed)

theorem freeAnswer_drift {s s' : Platform} {op : FreeOp} {reply : op.Reply}
    (answered : freeAnswer s op reply s') : accessMachine.Drift s s' := by
  cases op with
  | peek index =>
      rw [answered.2]
  | workBegins index =>
      obtain ⟨queued, returned, rfl⟩ := answered
      exact .single (.workStarts queued returned)
  | _ =>
      have kept : s' = s := answered
      rw [kept]

/-! Sections that run alone are the steps of the driver -/

theorem alone_read_iff {β : Type} {index : Fin ambaPciDevMax} {next : Entry → Access β}
    {value : β} {s s' : Platform} :
    accessMachine.alone.Steps (Access.read index >>= next, s) (.done value, s') ↔
      accessMachine.alone.Steps (next (s.devs index).seen, s) (.done value, s') := by
  constructor
  · intro ran
    obtain ⟨e, s₁, ⟨same, kept⟩, rest⟩ := Machine.alone_call ran
    rw [same, kept] at rest
    exact rest
  · exact fun rest => Machine.alone_call_iff.mpr ⟨_, s, ⟨rfl, rfl⟩, rest⟩

theorem alone_workLeaves_iff {index : Fin ambaPciDevMax} {value : Unit} {s s' : Platform} :
    accessMachine.alone.Steps (AccessOp.perform (.workLeaves index), s) (.done value, s') ↔
      (s.devs index).bootTimeoutWork.running = true ∧
        s' = s.setDev index ((s.devs index).withWork
          { (s.devs index).bootTimeoutWork with running := false }) := by
  constructor
  · intro ran
    obtain ⟨_, s₁, ⟨started, left⟩, rest⟩ := Machine.alone_call ran
    rw [← left]
    exact ⟨started, (Machine.alone_done rest).2⟩
  · rintro ⟨started, rfl⟩
    exact Machine.alone_call_iff.mpr ⟨(), _, ⟨started, rfl⟩, .refl⟩

/-- The work function has been called; it reads, stores and returns under the lock. -/
theorem bootTimeout_alone_iff {index : Fin ambaPciDevMax} {s s' : Platform} {value : Unit} :
    accessMachine.alone.Steps (Access.pcieBootTimeoutFn index, s) (.done value, s') ↔
      (s.devs index).bootTimeoutWork.running = true ∧
        s' = s.setDev index { pcieBootTimeoutFn (s.devs index) with
          bootTimeoutWork := { (s.devs index).bootTimeoutWork with running := false } } := by
  unfold Access.pcieBootTimeoutFn pcieBootTimeoutFn
  rw [alone_read_iff]
  by_cases failing : (s.devs index).inUse = true ∧ (s.devs index).state = .booting
  · rw [if_pos failing,
      if_pos (show (s.devs index).seen.inUse = true ∧ (s.devs index).seen.state = .booting
        from failing)]
    have stored : accessMachine.alone.Steps (Access.write index (.state .bootFailed) >>= fun _ =>
          AccessOp.perform (.workLeaves index), s) (.done value, s') ↔
        accessMachine.alone.Steps (AccessOp.perform (.workLeaves index),
          s.setDev index ((s.devs index).store (.state .bootFailed))) (.done value, s') := by
      constructor
      · intro ran
        obtain ⟨_, s₁, set, rest⟩ := Machine.alone_call ran
        rw [show s₁ = _ from set] at rest
        exact rest
      · exact fun rest => Machine.alone_call_iff.mpr ⟨(), _, rfl, rest⟩
    rw [stored, alone_workLeaves_iff, Platform.setDev_same, Platform.setDev_setDev]
    rfl
  · rw [if_neg failing,
      if_neg (show ¬ ((s.devs index).seen.inUse = true ∧ (s.devs index).seen.state = .booting)
        from failing), alone_workLeaves_iff]
    rfl

/-- A section that runs alone is a step of the driver, or changes nothing. -/
theorem section_step {α : Type} {body : Access α} (known : DriverSection t α body) {value : α}
    {s s' : Platform} (ran : accessMachine.alone.Steps (body, s) (.done value, s')) :
    s' = s ∨ ∃ event, LockedStep anyReply t s event s' := by
  have returned := Access.alone_returns ran
  cases known with
  | notify action pdev =>
      rw [Access.pciePciBusNotify_run, returns_map_iff] at returned
      obtain ⟨s₁, returned, same⟩ := returned
      cases same
      cases action with
      | addDevice => exact Or.inr ⟨_, .add returned⟩
      | delDevice => exact Or.inr ⟨_, .del returned⟩
      | other => exact Or.inl ((returns_done_iff _ _).mp returned)
  | enumerate present =>
      unfold Access.pcieEnumerateExistedDevs at returned
      rw [Access.enumerateSlots_run, returns_map_iff] at returned
      obtain ⟨s₁, returned, same⟩ := returned
      cases same
      exact Or.inr ⟨_, .enumerate returned⟩
  | query =>
      unfold Access.pcieQueryPlatformInfoLocked at returned
      rw [Access.queryDevs_run] at returned
      exact Or.inr ⟨_, .query returned⟩
  | devInfo index =>
      obtain ⟨e', queried, rfl⟩ := Access.pcieDevInfoReadLocked_run.returns_iff.mp returned
      obtain ⟨⟨info, e''⟩, answered, same⟩ := (returns_map_iff _ _ _).mp queried
      cases same
      have whole : (pcieDevInfoReadLocked index s).Returns anyReply (info, s.setDev index e'') :=
        (returns_bind_iff _ _ _).mpr ⟨(info, e''), answered, .done _⟩
      exact Or.inr ⟨_, .devInfo whole⟩
  | xferFirmware req index accepted addressed =>
      obtain ⟨e', sent, rfl⟩ := (Access.pcieXferFirmwareLocked_run t req).returns_iff.mp returned
      exact Or.inr ⟨_, .xferFirmware accepted addressed sent⟩
  | reboot index =>
      obtain ⟨e', rebooted, rfl⟩ := Access.pcieRebootLocked_run.returns_iff.mp returned
      have same := (returns_done_iff _ _).mp rebooted
      have after : e' = (pcieRebootLocked (s.devs index)).2 := by rw [← same]
      rw [after]
      exact Or.inr ⟨_, .reboot⟩
  | h2d index => exact Or.inl (Machine.alone_done (alone_read_iff.mp ran)).2
  | bootTimeout index =>
      obtain ⟨started, rfl⟩ := bootTimeout_alone_iff.mp ran
      exact Or.inr ⟨_, .workRuns started⟩

theorem sectionMoves_reachable {s s' : Platform} (reachable : Reachable anyReply t s)
    (moved : ReflTransGen (SectionMove accessMachine (DriverSection t)) s s') :
    Reachable anyReply t s' := by
  induction moved with
  | refl => exact reachable
  | tail _ last ih =>
      rcases last with moved | ⟨α, body, value, known, ran⟩
      · cases moved with
        | timerExpires armed => exact ih.step (.timerExpires armed)
        | workStarts queued returned => exact ih.step (.workStarts queued returned)
      · rcases section_step known ran with rfl | ⟨event, step⟩
        · exact ih
        · exact ih.step step

theorem driverDiscipline_sound :
    (driverDiscipline t pciName results).Sound accessMachine AccessOp.Early NoAccess where
  commutesEarly _ := early_commutes
  commutesLate _ impossible := impossible.elim
  atomic _ _ := driverSection_atomic

/-- Any result will do where it does not matter what is copied. -/
def anyResult (α : Type) (_ : Access α) (_ : α) : Prop := True

/-- Every pool of every interleaving: whole sections lead to the table, or to the one in which the
section under way has begun. -/
theorem driverRun_sequential {procRoot : Bool} {pool : DriverPool}
    (run : DriverRun t pciName procRoot pool) :
    Serialized accessMachine (driverDiscipline t pciName anyResult) (platformInit procRoot) pool :=
  sequential_of_reach (fun _ _ => timerExpires_drift) (fun _ _ _ _ => freeAnswer_drift)
    driverDiscipline_sound (fun _ _ _ _ _ => trivial) (fun _ => driverRuns_outside) rfl
    (fun _ => .done ()) run

theorem driverRun_reachable {procRoot : Bool} {pool : DriverPool}
    (run : DriverRun t pciName procRoot pool) (free : pool.shared.owner = none) :
    Reachable anyReply t pool.shared.state :=
  sectionMoves_reachable (.init procRoot) ((driverRun_sequential run).reached free)

/-- A run of the driver from moment to moment. -/
abbrev DriverHistory (t : Timing) (pciName : PciDev → Text) (procRoot : Bool) :
    (Nat → DriverPool) → Nat → Prop :=
  Pool.History driverSystem (DriverRuns t pciName) (fun _ _ _ => True) (initialPool procRoot)

/-- What a section has returned in the call of the thread that is under way. -/
abbrev DriverResult (t : Timing) (procRoot : Bool) (pools : Nat → DriverPool) (tid n : Nat) :
    (α : Type) → Access α → α → Prop :=
  CallResult accessMachine (DriverSection t) (platformInit procRoot) pools tid n

/-- What is copied to user space comes from a section of the call that copies it. -/
theorem driverHistory_copies {procRoot : Bool} {pools : Nat → DriverPool} {n : Nat}
    (history : DriverHistory t pciName procRoot pools n) {tid : Nat} {op : FreeOp}
    {next : op.Reply → DriverCode Unit} (turn : (pools n).threads tid = .call (.outer op) next) :
    CopiesResult (DriverResult t procRoot pools tid n) pciName op := by
  have placed : Placed accessMachine
      (driverDiscipline t pciName (DriverResult t procRoot pools tid n)) (platformInit procRoot) tid
      (pools n) :=
    placed_of_history (fun _ _ => timerExpires_drift) (fun _ _ _ _ => freeAnswer_drift)
      driverDiscipline_sound history
      (fun _ within => driverRun_sequential (history.reach within)) rfl
      (fun _ _ _ result => result) (fun _ => driverRuns_outside) ⟨(), rfl⟩
  exact placed.allowed turn

/-! Every step of the driver is taken in some interleaving -/

theorem setDev_running {s : Platform} {index : Fin ambaPciDevMax} {e : Entry}
    (kept : e.bootTimeoutWork.running = true → (s.devs index).bootTimeoutWork.running = true)
    (other : Fin ambaPciDevMax)
    (running : ((s.setDev index e).devs other).bootTimeoutWork.running = true) :
    (s.devs other).bootTimeoutWork.running = true := by
  by_cases same : other = index
  · subst same
    rw [Platform.setDev_same] at running
    exact kept running
  · rwa [Platform.setDev_other _ _ _ _ same] at running

/-- No access calls the work function. -/
theorem accessAnswer_running {s s' : Platform} {op : AccessOp} {reply : op.Reply}
    (answered : accessAnswer s op reply s') (index : Fin ambaPciDevMax)
    (running : (s'.devs index).bootTimeoutWork.running = true) :
    (s.devs index).bootTimeoutWork.running = true := by
  cases op with
  | read | nextDevId | procRoot =>
      rwa [answered.2] at running
  | write other field =>
      have set : s' = s.setDev other ((s.devs other).store field) := answered
      rw [set] at running
      refine setDev_running (fun marked => ?_) index running
      rwa [Entry.store_work] at marked
  | cancelWork other =>
      have set : s' = s.setDev other ((s.devs other).withWork _) := answered
      rw [set] at running
      refine setDev_running (fun marked => ?_) index running
      exact marked
  | scheduleWork other =>
      have set : s' = s.setDev other ((s.devs other).withWork _) := answered
      rw [set] at running
      refine setDev_running (fun marked => ?_) index running
      have marked : (scheduleDelayedWork (s.devs other).bootTimeoutWork).running = true := marked
      unfold scheduleDelayedWork at marked
      split at marked
      · exact marked
      · exact marked
  | workLeaves other =>
      rw [answered.2] at running
      exact setDev_running (fun _ => answered.1) index running
  | setNextDevId id =>
      have set : s' = { s with nextDevId := id } := answered
      rwa [set] at running
  | kernel op =>
      have kept : s' = s := answered
      rwa [kept] at running

theorem alone_running {α : Type} {body : Access α} {value : α} {s s' : Platform}
    (ran : accessMachine.alone.Steps (body, s) (.done value, s')) (index : Fin ambaPciDevMax)
    (running : (s'.devs index).bootTimeoutWork.running = true) :
    (s.devs index).bootTimeoutWork.running = true := by
  induction body generalizing s with
  | done result =>
      rw [(Machine.alone_done ran).2] at running
      exact running
  | call op next ih =>
      obtain ⟨reply, s₁, answered, rest⟩ := Machine.alone_call ran
      exact accessAnswer_running answered index (ih reply rest)

/-- The table comes up with the lock free. A work function that has been called waits for the lock,
and all but finitely many threads have never run. -/
structure Shows (pool : DriverPool) (s : Platform) : Prop where
  shared : pool.shared = ⟨none, s⟩
  idle : ∃ bound, ∀ tid, bound ≤ tid → pool.threads tid = .done ()
  called : ∀ index, (s.devs index).bootTimeoutWork.running = true →
    ∃ tid, pool.threads tid = DriverCode.underLock (Access.pcieBootTimeoutFn index)

variable {procRoot : Bool} {pool : DriverPool} {s s' : Platform}

/-- A thread that has not run yet takes one call to a point at which the lock is free. -/
theorem Shows.start (shows : Shows pool s) (run : DriverRun t pciName procRoot pool)
    {program rest : DriverCode Unit} (runs : DriverRuns t pciName program)
    (takes : ∀ tid, (Pool.solo driverSystem tid).Steps (program, ⟨none, s⟩) (rest, ⟨none, s'⟩))
    (called : ∀ index, (s'.devs index).bootTimeoutWork.running = true →
      (s.devs index).bootTimeoutWork.running = true ∨
        rest = DriverCode.underLock (Access.pcieBootTimeoutFn index)) :
    ∃ pool', DriverRun t pciName procRoot pool' ∧ Shows pool' s' := by
  obtain ⟨bound, idle⟩ := shows.idle
  have started := run.step (.start (idle bound (Nat.le_refl _)) runs)
  have solo : (Pool.solo driverSystem bound).Steps
      ((pool.resume bound program pool.shared).threads bound, pool.shared) (rest, ⟨none, s'⟩) := by
    rw [Pool.resume_same, shows.shared]
    exact takes bound
  have taken := started.solo (fun _ _ _ => trivial) solo
  rw [Pool.resume_resume] at taken
  refine ⟨_, taken, rfl, ⟨bound + 1, fun tid later => ?_⟩, fun index running => ?_⟩
  · rw [Pool.resume_other (by omega)]
    exact idle tid (by omega)
  · rcases called index running with before | here
    · obtain ⟨tid, waits⟩ := shows.called index before
      refine ⟨tid, ?_⟩
      rw [Pool.resume_other]
      · exact waits
      · intro same
        rw [same, idle bound (Nat.le_refl _)] at waits
        cases waits
    · exact ⟨bound, by rw [Pool.resume_same, here]⟩

/-- A thread that has not run yet comes to one of its steps. -/
theorem Shows.turn (shows : Shows pool s) (run : DriverRun t pciName procRoot pool)
    {program : DriverCode Unit} (runs : DriverRuns t pciName program)
    {op : LockedOp AccessOp FreeOp} {held : LockedState Nat Platform}
    (takes : ∀ tid, ∃ next, (Pool.solo driverSystem tid).Steps (program, ⟨none, s⟩)
      (.call op next, held)) :
    ∃ pool' tid next, DriverRun t pciName procRoot pool' ∧ pool'.threads tid = .call op next := by
  obtain ⟨bound, idle⟩ := shows.idle
  have started := run.step (.start (idle bound (Nat.le_refl _)) runs)
  obtain ⟨next, taken⟩ := takes bound
  have solo : (Pool.solo driverSystem bound).Steps
      ((pool.resume bound program pool.shared).threads bound, pool.shared)
      (.call op next, held) := by
    rw [Pool.resume_same, shows.shared]
    exact taken
  exact ⟨_, bound, next, started.solo (fun _ _ _ => trivial) solo, Pool.resume_same⟩

theorem underLock_solo (tid : Nat) {α : Type} {body : Access α} {value : α}
    (ran : accessMachine.alone.Steps (body, s) (.done value, s')) :
    (Pool.solo driverSystem tid).Steps (DriverCode.underLock body, ⟨none, s⟩)
      (.done value, ⟨none, s'⟩) := locked_solo tid ran

/-- The first access of the section that a thread waits for. -/
def firstAccess : DriverCode Unit → Option AccessOp
  | Prog.call LockedOp.lock next =>
      match next () with
      | Prog.call (LockedOp.inner op) _ => some op
      | _ => none
  | _ => none

/-- A work function that has been called gets the lock. -/
theorem Shows.workRuns (shows : Shows pool s) (run : DriverRun t pciName procRoot pool)
    {index : Fin ambaPciDevMax}
    (ran : accessMachine.alone.Steps (Access.pcieBootTimeoutFn index, s) (.done (), s')) :
    ∃ pool', DriverRun t pciName procRoot pool' ∧ Shows pool' s' := by
  obtain ⟨started, left⟩ := bootTimeout_alone_iff.mp ran
  obtain ⟨tid, waits⟩ := shows.called index started
  have solo : (Pool.solo driverSystem tid).Steps (pool.threads tid, pool.shared)
      (.done (), ⟨none, s'⟩) := by
    rw [waits, shows.shared]
    exact underLock_solo tid ran
  have taken := run.solo (fun _ _ _ => trivial) solo
  obtain ⟨bound, idle⟩ := shows.idle
  refine ⟨_, taken, rfl, ⟨bound, fun other later => ?_⟩, fun other running => ?_⟩
  · by_cases same : other = tid
    · rw [same, Pool.resume_same]
    · rw [Pool.resume_other same]
      exact idle other later
  · have apart : other ≠ index := by
      intro same
      rw [same, left, Platform.setDev_same] at running
      cases running
    obtain ⟨tid', waits'⟩ := shows.called other (alone_running ran other running)
    refine ⟨tid', ?_⟩
    rw [Pool.resume_other]
    · exact waits'
    · intro same
      rw [same, waits] at waits'
      have first : some (AccessOp.read index) = some (AccessOp.read other) :=
        congrArg firstAccess waits'
      exact apart (AccessOp.read.inj (Option.some.inj first)).symm

/-- A call that starts with this table and the lock free can come to such a point again, with
another table. -/
def Comes {α : Type} (program : DriverCode α) (s s' : Platform) : Prop :=
  ∃ rest, ∀ tid, (Pool.solo driverSystem tid).Steps (program, ⟨none, s⟩) (rest, ⟨none, s'⟩)

theorem Comes.underLock {α : Type} {body : Access α} {value : α}
    (ran : accessMachine.alone.Steps (body, s) (.done value, s')) :
    Comes (DriverCode.underLock body) s s' := ⟨.done value, fun tid => underLock_solo tid ran⟩

theorem Comes.bind {α β : Type} {first : DriverCode α} (comes : Comes first s s')
    (next : α → DriverCode β) : Comes (first >>= next) s s' := by
  obtain ⟨rest, takes⟩ := comes
  exact ⟨rest >>= next, fun tid => (takes tid).bind next⟩

/-- A step without the lock that leaves the table alone. -/
theorem Comes.free {α : Type} (op : FreeOp) {next : op.Reply → DriverCode α} (reply : op.Reply)
    (answered : freeAnswer s op reply s) (after : Comes (next reply) s s') :
    Comes (DriverCode.free op >>= next) s s' := by
  obtain ⟨rest, takes⟩ := after
  refine ⟨rest, fun tid => ?_⟩
  exact outer_solo tid (s := ⟨none, s⟩) answered (takes tid)

/-- The section of a firmware transfer comes first in its ioctl. -/
theorem xferFirmware_comes {req : FwXfer} {index : Fin ambaPciDevMax}
    (accepted : fwXferAccepted req = true) (addressed : req.slotId.toNat = index.val) {value : Int}
    (ran : accessMachine.alone.Steps (Access.pcieXferFirmwareLocked t req index, s)
      (.done value, s')) :
    Comes (DriverCode.call (DriverCode.pcieIoctlXferFirmware t (some req))) s s' := by
  have inside : req.slotId.toNat < ambaPciDevMax := by
    rw [addressed]
    exact index.isLt
  have same : index = ⟨req.slotId.toNat, inside⟩ := Fin.ext addressed.symm
  subst same
  apply Comes.bind
  unfold DriverCode.pcieIoctlXferFirmware pcieIoctlXferFirmwareCall
  dsimp only
  rw [dif_pos inside, if_neg (by rw [accepted]; decide)]
  exact (Comes.underLock ran).bind _

/-- The section of a proc read comes after the allocation of its buffer. -/
theorem devInfo_comes (pciName : PciDev → Text) {index : Fin ambaPciDevMax}
    {value : DevInfo × Entry}
    (ran : accessMachine.alone.Steps (Access.pcieDevInfoReadLocked index, s) (.done value, s')) :
    Comes (DriverCode.call (DriverCode.pcieProcDevInfoRead pciName index 0 0)) s s' := by
  apply Comes.bind
  apply Comes.free (.kernel (.kmalloc pageSize)) true rfl
  exact ((Comes.underLock ran).bind _).bind _

/-- The text "1" is taken for any entry in use. -/
theorem reboot_comes {index : Fin ambaPciDevMax} (used : (s.devs index).inUse = true) {value : Int}
    (ran : accessMachine.alone.Steps (Access.pcieRebootLocked index, s) (.done value, s')) :
    Comes (DriverCode.call (DriverCode.pcieProcRebootWrite t index 0 1 0)) s s' := by
  have allocated : freeAnswer s (.kernel (.kmalloc 2)) true s := rfl
  have copied : freeAnswer s (.kernel (.copyFromUser 0 1)) (some #v[49]) s := rfl
  have looked : freeAnswer s (.peek index) (s.devs index).seen s := ⟨rfl, rfl⟩
  have inUse : ¬ (s.devs index).seen.inUse = false := by
    have same : (s.devs index).seen.inUse = true := used
    rw [same]
    decide
  apply Comes.bind
  apply Comes.free _ true allocated
  apply Comes.free _ (some #v[49]) copied
  apply Comes.free _ (s.devs index).seen looked
  dsimp only [Prog.bind]
  rw [if_neg inUse, if_neg (by decide), if_neg (by decide)]
  exact (Comes.underLock ran).bind _

/-- The same for a call whose section is run. -/
theorem Shows.section (shows : Shows pool s) (run : DriverRun t pciName procRoot pool)
    {program : DriverCode Unit} (runs : DriverRuns t pciName program) (comes : Comes program s s')
    (kept : ∀ index, (s'.devs index).bootTimeoutWork.running = true →
      (s.devs index).bootTimeoutWork.running = true) :
    ∃ pool', DriverRun t pciName procRoot pool' ∧ Shows pool' s' := by
  obtain ⟨rest, takes⟩ := comes
  exact shows.start run runs takes fun index running => Or.inl (kept index running)

/-- Nothing is rebooted where nothing is attached. -/
theorem pcieRebootLocked_detached {e : Entry} (detached : e.pdev = none) :
    (pcieRebootLocked e).2 = e := by
  unfold pcieRebootLocked
  rw [if_pos (by rw [detached]; rfl)]

theorem Shows.step (shows : Shows pool s) (run : DriverRun t pciName procRoot pool) {event : Event}
    (reachable : Reachable anyReply t s) (step : LockedStep anyReply t s event s') :
    ∃ pool', DriverRun t pciName procRoot pool' ∧ Shows pool' s' := by
  cases step with
  | @add _ pdev returned =>
      have ran := Access.alone_steps
        ((Access.pciePciBusNotify_early .addDevice pdev).mono fun _ => AccessOp.Early.stays)
        (by rw [Access.pciePciBusNotify_run]; exact (returns_map_iff _ _ _).mpr ⟨_, returned, rfl⟩)
      exact shows.section run (.notify .addDevice pdev) (.underLock ran) (alone_running ran)
  | @del _ pdev returned =>
      have ran := Access.alone_steps
        ((Access.pciePciBusNotify_early .delDevice pdev).mono fun _ => AccessOp.Early.stays)
        (by rw [Access.pciePciBusNotify_run]; exact (returns_map_iff _ _ _).mpr ⟨_, returned, rfl⟩)
      exact shows.section run (.notify .delDevice pdev) (.underLock ran) (alone_running ran)
  | @enumerate _ present returned =>
      have ran := Access.alone_steps (s := s)
        ((Access.enumerateSlots_early present _).mono fun _ => AccessOp.Early.stays)
        (by rw [Access.enumerateSlots_run]; exact (returns_map_iff _ _ _).mpr ⟨_, returned, rfl⟩)
      exact shows.section run (.enumerate present) (.underLock ran) (alone_running ran)
  | query returned =>
      have proper := Access.queryDevs_proper (List.finRange ambaPciDevMax)
      have ran := Access.alone_steps (s := s)
        ((Access.early_of_proper proper).mono fun _ => AccessOp.Early.stays)
        (by rw [Access.queryDevs_run]; exact returned)
      have comes := ((Comes.underLock ran).bind fun devs => do
        let validCount := devs.countP fun info => info.isValid ≠ 0
        let copied ← DriverCode.free (.copyInfo ⟨1, BitVec.ofNat 32 validCount, devs⟩)
        if copied = false then pure (-efault) else pure 0).bind fun _ => Prog.done ()
      exact shows.section run (.query 1) comes (alone_running ran)
  | @devInfo _ index info returned =>
      obtain ⟨⟨info', e'⟩, queried, returned⟩ := (returns_bind_iff _ _ _).mp returned
      cases (returns_done_iff _ _).mp returned
      have proper : (Access.pcieDevInfoReadLocked index).Calls AccessOp.Proper :=
        Access.pcieDevInfoReadLocked_proper
      have early := Access.early_of_proper proper
      have ran := Access.alone_steps (early.mono fun _ => AccessOp.Early.stays)
        (Access.pcieDevInfoReadLocked_run.returns_iff.mpr
          ⟨e', (returns_map_iff _ _ _).mpr ⟨_, queried, rfl⟩, rfl⟩)
      exact shows.section run (.devInfoRead index 0 0) (devInfo_comes pciName ran)
        (alone_running ran)
  | @xferFirmware req index ret e' accepted addressed returned =>
      have ran := Access.alone_steps (Access.pcieXferFirmwareLocked_stays t req)
        ((Access.pcieXferFirmwareLocked_run t req).returns_iff.mpr ⟨e', returned, rfl⟩)
      exact shows.section run (.xferFirmware (some req)) (xferFirmware_comes accepted addressed ran)
        (alone_running ran)
  | @reboot index =>
      by_cases used : (s.devs index).inUse = true
      · have proper : (Access.pcieRebootLocked index).Calls AccessOp.Proper :=
          Access.pcieRebootLocked_proper
        have early := Access.early_of_proper proper
        have ran := Access.alone_steps (s := s) (early.mono fun _ => AccessOp.Early.stays)
          (Access.pcieRebootLocked_run.returns_iff.mpr ⟨_, .done _, rfl⟩)
        exact shows.section run (.rebootWrite index 0 1 0) (reboot_comes used ran)
          (alone_running ran)
      · -- The write fails before it takes the lock.
        have free := reachable.slotInvariant index
        rw [pcieRebootLocked_detached (free.unused (by simpa using used)).1, Platform.setDev_self]
        exact ⟨pool, run, shows⟩
  | @timerExpires index armed =>
      refine ⟨_, run.step (.interfere (s := ⟨none, _⟩) ⟨?_, ?_⟩), ⟨rfl, shows.idle, ?_⟩⟩
      · rw [shows.shared]
        exact ⟨index, armed, rfl⟩
      · rw [shows.shared]
      · intro other running
        refine shows.called other (setDev_running (fun marked => ?_) other running)
        exact marked
  | @workStarts index queued returned =>
      have begins : freeAnswer s (.workBegins index) () (s.setDev index
          ((s.devs index).withWork { pending := .idle, running := true })) :=
        ⟨queued, returned, rfl⟩
      have takes : ∀ tid, (Pool.solo driverSystem tid).Steps
          (DriverCode.bootTimeout index, ⟨none, s⟩)
          (DriverCode.underLock (Access.pcieBootTimeoutFn index), ⟨none, _⟩) := fun tid =>
        outer_solo tid (s := ⟨none, s⟩) begins .refl
      refine shows.start run (.bootTimeout index) takes fun other running => ?_
      by_cases same : other = index
      · exact Or.inr (by rw [same])
      · rw [Platform.setDev_other _ _ _ _ same] at running
        exact Or.inl running
  | @workRuns index started =>
      exact shows.workRuns run (bootTimeout_alone_iff.mpr ⟨started, rfl⟩)

theorem shows_reachable (pciName : PciDev → Text) (reachable : Reachable anyReply t s) :
    ∃ procRoot pool, DriverRun t pciName procRoot pool ∧ Shows pool s := by
  induction reachable with
  | init procRoot =>
      exact ⟨procRoot, initialPool procRoot, .init, rfl, ⟨0, fun _ _ => rfl⟩,
        fun _ impossible => nomatch impossible⟩
  | step before step ih =>
      obtain ⟨procRoot, pool, run, shows⟩ := ih
      obtain ⟨pool', run', shows'⟩ := shows.step run before step
      exact ⟨procRoot, pool', run', shows'⟩

/-- In all interleavings of single accesses together the lock is free with exactly the tables that
the lock-protected steps reach one after the other. -/
theorem driver_interleavings (t : Timing) (pciName : PciDev → Text) (table : Platform) :
    (∃ procRoot pool, DriverRun t pciName procRoot pool ∧ pool.shared.owner = none ∧
      pool.shared.state = table) ↔ Reachable anyReply t table := by
  constructor
  · rintro ⟨procRoot, pool, run, free, rfl⟩
    exact driverRun_reachable run free
  · intro reachable
    obtain ⟨procRoot, pool, run, shows⟩ := shows_reachable pciName reachable
    refine ⟨procRoot, pool, run, ?_, ?_⟩
    · rw [shows.shared]
    · rw [shows.shared]

end AmbaPci

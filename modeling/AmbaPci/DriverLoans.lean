import AmbaPci.DriverInterleavings
import AmbaPci.InteractionLoans

set_option autoImplicit false

/- What the driver's calls take while they run: references to the modules whose functions they look
up, the file that is sent, and the bounce buffer. -/
namespace AmbaPci

open Interaction Interaction.Prog Interaction.Ledger
open TextFormat (Text)

/-- The modules whose functions are looked up when they are called. -/
inductive Provider
  | turbo
  | buzz
  deriving DecidableEq

inductive Loan
  | symbol (of : Provider)
  | file
  | buffer
  deriving DecidableEq

def h2dLedger : Ledger H2dOp H2dOp.Reply Loan where
  acquires
    | .symbolGet, true => {.symbol .turbo}
    | .filpOpen _, err => if err = 0 then {.file} else ∅
    | .vmalloc _, true => {.buffer}
    | _, _ => ∅
  releases
    | .symbolPut => {.symbol .turbo}
    | .filpClose => {.file}
    | .vfree => {.buffer}
    | _ => ∅
  uses
    | .copyFromUser _ _ => {.buffer}
    | .kernelRead _ _ => {.file, .buffer}
    | .h2dXfer _ _ _ => {.symbol .turbo, .buffer}
    | _ => ∅
  bars
    | .symbolGet => {.symbol .turbo}
    | .filpOpen _ => {.file}
    | .vmalloc _ => {.buffer}
    | _ => ∅

/-- A function of another module is only called with a reference to its module. -/
def driverLedger : Ledger DriverOp (LockedOp.Reply AccessOp.Reply FreeOp.Reply) Loan where
  acquires
    | .outer (.h2d op), reply => h2dLedger.acquires op reply
    | .outer (.symbolGet _), true => {.symbol .buzz}
    | _, _ => ∅
  releases
    | .outer (.h2d op) => h2dLedger.releases op
    | .outer (.symbolPut _) => {.symbol .buzz}
    | _ => ∅
  uses
    | .outer (.h2d op) => h2dLedger.uses op
    | .outer (.busNetGet _ _ _) => {.symbol .buzz}
    | .outer (.busEpinfoRead _ _ _) => {.symbol .buzz}
    | _ => ∅
  bars
    | .outer (.h2d op) => h2dLedger.bars op
    | .outer (.symbolGet _) => {.symbol .buzz}
    | _ => ∅

/-! The H2D ioctls -/

variable {held : Set Loan}

theorem h2dLedger_ready {op : H2dOp} (uses : h2dLedger.uses op = ∅)
    (releases : h2dLedger.releases op = ∅) {r : Loan} (bars : h2dLedger.bars op = {r})
    (fresh : r ∉ held) : h2dLedger.Ready held op where
  used := by rw [uses]; exact Set.empty_subset held
  released := by rw [releases]; exact Set.empty_subset held
  barred := by rw [bars]; exact Set.disjoint_singleton_left.mpr fresh

theorem h2dSpin_borrows {α : Type} : (h2dSpin : H2d α).Calls (h2dLedger.Borrows held) :=
  ⟨⟨Set.empty_subset held, rfl, fun impossible => (nomatch impossible), rfl⟩,
    fun impossible => nomatch impossible⟩

theorem pcieH2dFileLoop_borrows (bus : BitVec 32) (reads pos : Nat) (epAddr : BitVec 64)
    (reading : {.file, .buffer} ⊆ held) (sending : {.symbol .turbo, .buffer} ⊆ held) :
    (pcieH2dFileLoop bus reads pos epAddr).Calls (h2dLedger.Borrows held) := by
  induction reads generalizing pos epAddr with
  | zero => exact h2dSpin_borrows
  | succ reads ih =>
      refine Calls.perform ⟨reading, rfl, fun _ => rfl, rfl⟩ fun nread => ?_
      split
      · trivial
      · trivial
      · refine Calls.perform ⟨sending, rfl, fun _ => rfl, rfl⟩ fun ret => ?_
        split
        · trivial
        · exact ih _ _

theorem pcieH2dBufferLoop_borrows (bus : BitVec 32) (src size epAddr : BitVec 64) (passes : Nat)
    (offset : BitVec 64) (copying : Loan.buffer ∈ held)
    (sending : {.symbol .turbo, .buffer} ⊆ held) :
    (pcieH2dBufferLoop bus src size epAddr passes offset).Calls (h2dLedger.Borrows held) := by
  induction passes generalizing offset with
  | zero => exact h2dSpin_borrows
  | succ passes ih =>
      unfold pcieH2dBufferLoop
      split
      · have copies := Set.singleton_subset_iff.mpr copying
        refine Calls.perform ⟨copies, rfl, fun _ => rfl, rfl⟩ fun copied => ?_
        split
        · trivial
        · refine Calls.perform ⟨sending, rfl, fun _ => rfl, rfl⟩ fun ret => ?_
          split
          · trivial
          · exact ih _
      · trivial

theorem symbol_buffer (found : Loan.symbol .turbo ∈ held) :
    {.symbol .turbo, .buffer} ⊆ insert Loan.buffer held := by
  rintro _ (rfl | rfl)
  · exact Or.inr found
  · exact Or.inl rfl

/-- The buffer is freed however the loop ends. -/
theorem pcieH2dSendOpened_ensures (bus : BitVec 32) (reads : Nat) (epAddr : BitVec 64)
    (opened : Loan.file ∈ held) (found : Loan.symbol .turbo ∈ held) (fresh : Loan.buffer ∉ held) :
    h2dLedger.Ensures (fun _ held' => held' = held) (pcieH2dSendOpened bus reads epAddr) held := by
  apply ensures_perform (h2dLedger_ready rfl rfl rfl fresh)
  intro kbuf _
  cases kbuf with
  | false =>
      rw [after_same rfl rfl]
      exact ensures_done rfl
  | true =>
      rw [after_insert rfl rfl]
      apply ensures_bracket fresh rfl (fun _ => rfl) rfl rfl
      · have reading : {.file, .buffer} ⊆ insert Loan.buffer held := by
          rintro _ (rfl | rfl)
          · exact Or.inr opened
          · exact Or.inl rfl
        apply Machine.wp_mono
          (ensures_calls (pcieH2dFileLoop_borrows bus reads 0 epAddr reading (symbol_buffer found)))
        exact fun _ _ here => here.1
      · intro ret _
        exact ensures_done rfl

theorem pcieH2dSendPath_ensures (bus : BitVec 32) (reads : Nat) (path : List ByteMemory.Byte)
    (epAddr : BitVec 64) :
    h2dLedger.Ensures (fun _ held' => held' = ∅) (pcieH2dSendPath bus reads path epAddr) ∅ := by
  apply ensures_perform (h2dLedger_ready rfl rfl rfl (Set.notMem_empty _))
  intro found _
  cases found with
  | false =>
      rw [after_same rfl rfl]
      exact ensures_done rfl
  | true =>
      have closed : Loan.file ∉ (insert (Loan.symbol .turbo) ∅ : Set Loan) := by simp
      rw [after_insert rfl rfl]
      apply ensures_perform (h2dLedger_ready rfl rfl rfl closed)
      intro opened _
      split
      · rename_i failed
        rw [after_same rfl (if_neg failed)]
        exact ensures_give (Set.notMem_empty _) rfl (fun _ => rfl) rfl rfl fun _ =>
          ensures_done rfl
      · rename_i succeeded
        rw [after_insert rfl (if_pos (not_not.mp succeeded))]
        apply ensures_bracket closed rfl (fun _ => rfl) rfl rfl
        · exact pcieH2dSendOpened_ensures bus reads epAddr (by simp) (by simp) (by simp)
        · intro ret _
          exact ensures_give (Set.notMem_empty _) rfl (fun _ => rfl) rfl rfl fun _ =>
            ensures_done rfl

theorem pcieH2dSendCopied_ensures (bus : BitVec 32) (src size epAddr : BitVec 64) :
    h2dLedger.Ensures (fun _ held' => held' = ∅) (pcieH2dSendCopied bus src size epAddr) ∅ := by
  apply ensures_perform (h2dLedger_ready rfl rfl rfl (Set.notMem_empty _))
  intro found _
  cases found with
  | false =>
      rw [after_same rfl rfl]
      exact ensures_done rfl
  | true =>
      have fresh : Loan.buffer ∉ (insert (Loan.symbol .turbo) ∅ : Set Loan) := by simp
      rw [after_insert rfl rfl]
      apply ensures_perform (h2dLedger_ready rfl rfl rfl fresh)
      intro kbuf _
      cases kbuf with
      | false =>
          rw [after_same rfl rfl]
          exact ensures_give (Set.notMem_empty _) rfl (fun _ => rfl) rfl rfl fun _ =>
            ensures_done rfl
      | true =>
          rw [after_insert rfl rfl]
          apply ensures_bracket fresh rfl (fun _ => rfl) rfl rfl
          · have sending := symbol_buffer (Set.mem_insert (Loan.symbol .turbo) ∅)
            apply Machine.wp_mono (ensures_calls (pcieH2dBufferLoop_borrows bus src size epAddr
              (h2dPasses size) 0 (Set.mem_insert _ _) sending))
            exact fun _ _ here => here.1
          · intro ret _
            exact ensures_give (Set.notMem_empty _) rfl (fun _ => rfl) rfl rfl fun _ =>
              ensures_done rfl

/-- The section under the driver lock takes nothing. -/
theorem lockedEntry_ensures {index : Fin ambaPciDevMax} {next : Entry → H2d Int}
    (resume : ∀ e, h2dLedger.Ensures (fun _ held' => held' = ∅) (next e) ∅) :
    h2dLedger.Ensures (fun _ held' => held' = ∅) (h2d (.lockedEntry index) >>= next) ∅ :=
  ensures_borrow ⟨Set.empty_subset _, rfl, fun _ => rfl, rfl⟩ resume

/-- Whatever fails, an H2D call gives back all it has taken, and uses nothing after that. -/
theorem h2dCall_ensures (ioctl : H2dCall) :
    h2dLedger.Ensures (fun _ held' => held' = ∅) ioctl.program ∅ := by
  cases ioctl with
  | sendFile reads req =>
      unfold H2dCall.program pcieIoctlH2dSendFile
      dsimp only
      split
      · exact ensures_done rfl
      · split
        · exact ensures_done rfl
        · apply lockedEntry_ensures
          intro e
          split
          · exact ensures_done rfl
          · exact pcieH2dSendPath_ensures _ reads _ _
  | sendBuffer req =>
      unfold H2dCall.program pcieIoctlH2dSendBuffer
      dsimp only
      split
      · exact ensures_done rfl
      · split
        · exact ensures_done rfl
        · apply lockedEntry_ensures
          intro e
          split
          · exact ensures_done rfl
          · exact pcieH2dSendCopied_ensures _ _ _ _

/-! The threads of the driver -/

variable {t : Timing} {pciName : PciDev → Text}

theorem DriverOp.Plain.borrows {op : DriverOp} (plain : op.Plain) :
    driverLedger.Borrows held op := by
  cases op with
  | outer op =>
      cases op with
      | h2d | symbolGet | symbolPut | busNetGet | busEpinfoRead => exact plain.elim
      | _ => exact ⟨Set.empty_subset held, rfl, fun _ => rfl, rfl⟩
  | _ => exact ⟨Set.empty_subset held, rfl, fun _ => rfl, rfl⟩

/-- It gives back all it has taken, and uses nothing that it does not hold. -/
def Repays {α : Type} (program : DriverCode α) : Prop :=
  driverLedger.Ensures (fun _ held => held = ∅) program ∅

theorem repays_done {α : Type} (value : α) : Repays (.done value : DriverCode α) := ensures_done rfl

theorem repays_seq {α β : Type} {first : DriverCode α} {next : α → DriverCode β}
    (before : Repays first) (after : ∀ value, Repays (next value)) : Repays (first >>= next) := by
  apply ensures_seq before
  rintro value _ rfl
  exact after value

theorem repays_plain {α : Type} {program : DriverCode α} (calls : program.Calls DriverOp.Plain) :
    Repays program := by
  have borrows : program.Calls (driverLedger.Borrows ∅) :=
    calls.mono fun _ => DriverOp.Plain.borrows
  exact Machine.wp_mono (ensures_calls borrows) fun _ _ here => here.1

theorem repays_free {α : Type} (op : FreeOp) {next : op.Reply → DriverCode α} (plain : op.Plain)
    (after : ∀ reply, Repays (next reply)) : Repays (DriverCode.free op >>= next) :=
  repays_seq (repays_plain (free_plain op plain)) after

theorem repays_call {α : Type} {program : DriverCode α} (repays : Repays program) :
    Repays (DriverCode.call program) := repays_seq repays fun _ => repays_done ()

/-- The steps of an H2D call are those of a thread. -/
theorem h2dStep_ensures (op : H2dOp) (held : Set Loan) (ready : h2dLedger.Ready held op) :
    driverLedger.Ensures (fun reply held' => Disjoint (h2dLedger.acquires op reply) held ∧
      held' = h2dLedger.after held op reply) (DriverCode.h2dStep op) held := by
  cases op with
  | lockedEntry index =>
      have calls : (DriverCode.underLock (Access.read index)).Calls (driverLedger.Borrows held) :=
        underLock_plain.mono fun _ => DriverOp.Plain.borrows
      apply Machine.wp_mono (ensures_calls calls)
      intro e held' here
      exact ⟨Set.empty_disjoint held, here.1.trans (after_same rfl rfl).symm⟩
  | _ =>
      apply (ensures_call_iff _ _).mpr
      exact ⟨⟨ready.used, ready.released, ready.barred⟩, fun _ free => ensures_done ⟨free, rfl⟩⟩

theorem pcieIoctlH2dSend_repays (ioctl : H2dCall) : Repays (DriverCode.pcieIoctlH2dSend ioctl) :=
  ensures_interp h2dStep_ensures (h2dCall_ensures ioctl)

/-- The buzz function is called between the lookup and the put. -/
theorem buzzCall_repays (symbol : BuzzSymbol)
    {ask : DriverCode (Option Text)} (calls : ask.Calls (driverLedger.Borrows {.symbol .buzz})) :
    Repays (DriverCode.buzzCall symbol ask) := by
  apply ensures_perform
  · exact ⟨Set.empty_subset _, Set.empty_subset _, Set.disjoint_empty _⟩
  · intro found _
    cases found with
    | false =>
        rw [after_same rfl rfl]
        exact repays_done none
    | true =>
        rw [after_insert rfl rfl]
        apply ensures_bracket (Set.notMem_empty _) rfl (fun _ => rfl) rfl rfl
        · apply Machine.wp_mono (ensures_calls (calls.mono fun op borrows => borrows.mono ?_))
          · exact fun _ _ here => here.1
          · exact Set.singleton_subset_iff.mpr (Set.mem_insert _ _)
        · exact fun reply _ => repays_done reply

theorem entryBus_plain (index : Fin ambaPciDevMax) :
    (DriverCode.entryBus index).Calls DriverOp.Plain := by
  have looks := free_plain (.peek index) trivial
  apply looks.bind; intro e
  split
  · apply looks.bind; intro e
    split
    · exact nullDereference_plain
    · trivial
  · apply looks.bind; intro e
    trivial

theorem pcieNetReadEntry_repays (index : Fin ambaPciDevMax) (size : Nat) :
    Repays (DriverCode.pcieNetReadEntry index size) := by
  apply repays_free (.peek index) trivial; intro e
  split
  · exact repays_done _
  · apply repays_seq (repays_plain (entryBus_plain index)); intro bus
    have asks : (DriverCode.free (.busNetGet index bus DriverCode.ambaPciNetInfoMax)).Calls
        (driverLedger.Borrows {.symbol .buzz}) :=
      ⟨⟨Set.Subset.rfl, rfl, fun _ => rfl, rfl⟩, fun _ => trivial⟩
    apply repays_seq (buzzCall_repays .busNetGet asks); intro net
    split
    · exact repays_done _
    · exact repays_done _

theorem pcieDevLogReadEntry_repays (index : Fin ambaPciDevMax) (size : Nat) :
    Repays (DriverCode.pcieDevLogReadEntry index size) := by
  apply repays_free (.peek index) trivial; intro e
  split
  · exact repays_done _
  · apply repays_seq (repays_plain (entryBus_plain index)); intro bus
    have asks : (DriverCode.free (.busEpinfoRead index bus size)).Calls
        (driverLedger.Borrows {.symbol .buzz}) :=
      ⟨⟨Set.Subset.rfl, rfl, fun _ => rfl, rfl⟩, fun _ => trivial⟩
    apply repays_seq (buzzCall_repays .busEpinfoRead asks); intro log
    split
    · exact repays_done _
    · exact repays_done _

theorem simpleReadFromBuffer_plain (index : Fin ambaPciDevMax) (node : ProcNode)
    (nbytes ppos : Nat) (buffer : Text) :
    (DriverCode.simpleReadFromBuffer index node nbytes ppos buffer).Calls DriverOp.Plain := by
  unfold DriverCode.simpleReadFromBuffer
  dsimp only
  split
  · trivial
  · apply (free_plain (.copyToUser index node _) trivial).bind; intro left
    split
    · trivial
    · trivial

theorem pcieProcRead_repays {index : Fin ambaPciDevMax} {node : ProcNode} {size : Nat}
    {reader : Nat → DriverCode (Except Int Text)} (reads : Repays (reader size))
    (nbytes ppos : Nat) :
    Repays (DriverCode.call (DriverCode.pcieProcRead index node size reader nbytes ppos)) := by
  apply repays_call
  apply repays_free (.kernel (.kmalloc size)) trivial; intro kbuf
  split
  · exact repays_done _
  · apply repays_seq reads; intro len
    split
    · exact repays_done _
    · exact repays_plain (simpleReadFromBuffer_plain _ _ _ _ _)

theorem driverRuns_repays {program : DriverCode Unit} (runs : DriverRuns t pciName program) :
    Repays program := by
  cases runs with
  | notify action pdev => exact repays_plain underLock_plain
  | enumerate present => exact repays_plain underLock_plain
  | query argp => exact repays_plain (call_plain (pcieIoctlQueryPlatformInfo_plain argp))
  | xferFirmware argp => exact repays_plain (call_plain (pcieIoctlXferFirmware_plain t argp))
  | h2dSend ioctl => exact repays_call (pcieIoctlH2dSend_repays ioctl)
  | statusRead index nbytes ppos =>
      exact pcieProcRead_repays (repays_free (.peek index) trivial fun _ => repays_done _) nbytes
        ppos
  | devInfoRead index nbytes ppos =>
      have reads : (DriverCode.pcieDevInfoReadEntry pciName index pageSize).Calls DriverOp.Plain :=
        underLock_plain.bind fun _ => trivial
      exact pcieProcRead_repays (repays_plain reads) nbytes ppos
  | netRead index nbytes ppos =>
      exact pcieProcRead_repays (pcieNetReadEntry_repays index pageSize) nbytes ppos
  | devLogRead index nbytes ppos =>
      exact pcieProcRead_repays (pcieDevLogReadEntry_repays index _) nbytes ppos
  | rebootWrite index buf count ppos =>
      exact repays_plain (call_plain (pcieProcRebootWrite_plain t index buf count ppos))
  | bootTimeout index => exact repays_plain (bootTimeout_plain index)

end AmbaPci

import AmbaPci.DriverLoans
import AmbaPci.UnlockedReads

set_option autoImplicit false

/- The modules whose functions the driver calls come and go beside it. Their references, the open
files and the bounce buffers are counted over all threads. -/
namespace AmbaPci

open Interaction Interaction.Prog Interaction.Ledger

/-! The other modules, beside the driver -/

/-- Which of the other modules are loaded, and how often each thing is taken: for a module, the
references that keep it loaded. -/
structure Lenders where
  loaded : Provider → Bool
  count : Loan → Nat

namespace Lenders

def take (m : Lenders) (r : Loan) : Lenders :=
  { m with count := fun other => if other = r then m.count other + 1 else m.count other }

def give (m : Lenders) (r : Loan) : Lenders :=
  { m with count := fun other => if other = r then m.count other - 1 else m.count other }

/-- `symbol_get` finds a function while its module is loaded, and takes a reference to the module
then. -/
def symbolGet (m : Lenders) (of : Provider) (found : Bool) (m' : Lenders) : Prop :=
  found = m.loaded of ∧ m' = if found = true then m.take (.symbol of) else m

def h2dAnswer (m : Lenders) : (op : H2dOp) → op.Reply → Lenders → Prop
  | .symbolGet, found, m' => m.symbolGet .turbo found m'
  | .symbolPut, _, m' => m' = m.give (.symbol .turbo)
  | .filpOpen _, err, m' => m' = if err = 0 then m.take .file else m
  | .filpClose, _, m' => m' = m.give .file
  | .vmalloc _, made, m' => m' = if made = true then m.take .buffer else m
  | .vfree, _, m' => m' = m.give .buffer
  | _, _, m' => m' = m

def answer (m : Lenders) :
    (op : DriverOp) → LockedOp.Reply AccessOp.Reply FreeOp.Reply op → Lenders → Prop
  | .outer (.h2d op), reply, m' => m.h2dAnswer op reply m'
  | .outer (.symbolGet _), found, m' => m.symbolGet .buzz found m'
  | .outer (.symbolPut _), _, m' => m' = m.give (.symbol .buzz)
  | _, _, m' => m' = m

/-- A module comes at any time, and goes only while nobody has a reference to it. -/
inductive Moves (m : Lenders) : Lenders → Prop
  | load (of : Provider) : Moves m { m with loaded := Function.update m.loaded of true }
  | unload (of : Provider) (free : m.count (.symbol of) = 0) :
      Moves m { m with loaded := Function.update m.loaded of false }

/-- A module is loaded while somebody has a reference to it. -/
def Pinned (m : Lenders) : Prop := ∀ of, 0 < m.count (.symbol of) → m.loaded of = true

end Lenders

/-! The driver's threads beside them -/

/-- The holdings of a thread are what the replies to its own operations have handed it, less what it
has given back. The lenders count without them. -/
structure Lending where
  driver : DriverState
  lenders : Lenders
  holdings : Nat → Set Loan

def lenderSystem : System Nat DriverOp (LockedOp.Reply AccessOp.Reply FreeOp.Reply) Lending where
  answer tid s op reply s' :=
    driverSystem.answer tid s.driver op reply s'.driver ∧
      s.lenders.answer op reply s'.lenders ∧
      s'.holdings = Function.update s.holdings tid (driverLedger.after (s.holdings tid) op reply)
  interfere s s' :=
    s'.holdings = s.holdings ∧
      ((driverSystem.interfere s.driver s'.driver ∧ s'.lenders = s.lenders) ∨
        (s'.driver = s.driver ∧ s.lenders.Moves s'.lenders))

abbrev LenderPool : Type :=
  Pool Nat DriverOp (LockedOp.Reply AccessOp.Reply FreeOp.Reply) Lending Unit

/-- No thread runs, the table is zeroed, and nothing is taken. -/
def initialLenderPool (procRoot : Bool) (loaded : Provider → Bool) : LenderPool where
  threads _ := .done ()
  shared := ⟨⟨none, platformInit procRoot⟩, ⟨loaded, fun _ => 0⟩, fun _ => ∅⟩

abbrev LenderRun (t : Timing) (pciName : PciDev → TextFormat.Text) (procRoot : Bool)
    (loaded : Provider → Bool) : LenderPool → Prop :=
  Pool.Reach lenderSystem (DriverRuns t pciName) (fun _ _ _ => True)
    (initialLenderPool procRoot loaded)

theorem h2dLedger_barred (op : H2dOp) (reply : op.Reply) :
    h2dLedger.acquires op reply ⊆ h2dLedger.bars op := by
  cases op with
  | symbolGet | vmalloc =>
      cases reply with
      | true => exact Set.Subset.rfl
      | false => exact Set.empty_subset _
  | filpOpen =>
      simp only [h2dLedger]
      split
      · exact Set.Subset.rfl
      · exact Set.empty_subset _
  | _ => exact Set.empty_subset _

theorem driverLedger_barred (op : DriverOp)
    (reply : LockedOp.Reply AccessOp.Reply FreeOp.Reply op) :
    driverLedger.acquires op reply ⊆ driverLedger.bars op := by
  cases op with
  | outer op =>
      cases op with
      | h2d op => exact h2dLedger_barred op reply
      | symbolGet =>
          cases reply with
          | true => exact Set.Subset.rfl
          | false => exact Set.empty_subset _
      | _ => exact Set.empty_subset _
  | _ => exact Set.empty_subset _

variable {m m' : Lenders} {r : Loan}

theorem Lenders.take_counts {Op : Type} {Reply : Op → Type} {L : Ledger Op Reply Loan} {op : Op}
    {reply : Reply op} (takes : L.acquires op reply = {r}) (releases : L.releases op = ∅) :
    L.Counts op reply m.count (m.take r).count where
  acquired other inside := by
    rw [takes] at inside
    exact if_pos inside
  released other inside := by
    rw [releases] at inside
    exact inside.elim
  kept other absent _ := by
    rw [takes] at absent
    exact if_neg absent

theorem Lenders.give_counts {Op : Type} {Reply : Op → Type} {L : Ledger Op Reply Loan} {op : Op}
    {reply : Reply op} (acquires : L.acquires op reply = ∅) (gives : L.releases op = {r}) :
    L.Counts op reply m.count (m.give r).count where
  acquired other inside := by
    rw [acquires] at inside
    exact inside.elim
  released other inside := by
    rw [gives] at inside
    exact if_pos inside
  kept other _ absent := by
    rw [gives] at absent
    exact if_neg absent

theorem Lenders.same_counts {Op : Type} {Reply : Op → Type} {L : Ledger Op Reply Loan} {op : Op}
    {reply : Reply op} (acquires : L.acquires op reply = ∅) (releases : L.releases op = ∅) :
    L.Counts op reply m.count m.count where
  acquired other inside := by
    rw [acquires] at inside
    exact inside.elim
  released other inside := by
    rw [releases] at inside
    exact inside.elim
  kept _ _ _ := rfl

theorem Lenders.h2dAnswer_counts {op : H2dOp} {reply : op.Reply}
    (answered : m.h2dAnswer op reply m') : h2dLedger.Counts op reply m.count m'.count := by
  cases op with
  | symbolGet =>
      obtain ⟨-, rfl⟩ := answered
      cases reply with
      | true => exact take_counts rfl rfl
      | false => exact same_counts rfl rfl
  | vmalloc =>
      cases answered
      cases reply with
      | true => exact take_counts rfl rfl
      | false => exact same_counts rfl rfl
  | filpOpen =>
      cases answered
      split
      · rename_i opened
        exact take_counts (if_pos opened) rfl
      · rename_i failed
        exact same_counts (if_neg failed) rfl
  | symbolPut | filpClose | vfree =>
      cases answered
      exact give_counts rfl rfl
  | spin => exact reply.elim
  | _ =>
      cases answered
      exact same_counts rfl rfl

/-- What the lenders see of an operation is what the ledger says of it. -/
theorem Lenders.answer_counts {op : DriverOp}
    {reply : LockedOp.Reply AccessOp.Reply FreeOp.Reply op} (answered : m.answer op reply m') :
    driverLedger.Counts op reply m.count m'.count := by
  cases op with
  | outer op =>
      cases op with
      | h2d op =>
          have counts := h2dAnswer_counts answered
          exact ⟨counts.acquired, counts.released, counts.kept⟩
      | symbolGet =>
          obtain ⟨-, rfl⟩ := answered
          cases reply with
          | true => exact take_counts rfl rfl
          | false => exact same_counts rfl rfl
      | symbolPut =>
          cases answered
          exact give_counts rfl rfl
      | _ =>
          cases answered
          exact same_counts rfl rfl
  | _ =>
      cases answered
      exact same_counts rfl rfl

/-! A module with a reference stays -/

theorem Lenders.Pinned.symbolGet {of : Provider} {found : Bool} (pinned : m.Pinned)
    (answered : m.symbolGet of found m') : m'.Pinned := by
  obtain ⟨same, rfl⟩ := answered
  split
  · rename_i there
    intro other positive
    by_cases here : other = of
    · exact here ▸ same.symm.trans there
    · have apart : Loan.symbol other ≠ Loan.symbol of := fun equal => here (Loan.symbol.inj equal)
      have kept : (m.take (.symbol of)).count (.symbol other) = m.count (.symbol other) :=
        if_neg apart
      rw [kept] at positive
      exact pinned other positive
  · exact pinned

theorem Lenders.Pinned.give (pinned : m.Pinned) (r : Loan) : (m.give r).Pinned := by
  intro of positive
  apply pinned of
  simp only [Lenders.give] at positive
  split at positive
  · omega
  · exact positive

/-- Files and buffers are no modules. -/
theorem Lenders.Pinned.take (pinned : m.Pinned) (other : ∀ of, r ≠ .symbol of) :
    (m.take r).Pinned := by
  intro of positive
  apply pinned of
  have kept : (m.take r).count (.symbol of) = m.count (.symbol of) :=
    if_neg fun same => other of same.symm
  rwa [kept] at positive

theorem Lenders.Pinned.h2dAnswer {op : H2dOp} {reply : op.Reply} (pinned : m.Pinned)
    (answered : m.h2dAnswer op reply m') : m'.Pinned := by
  cases op with
  | symbolGet => exact pinned.symbolGet answered
  | filpOpen | vmalloc =>
      cases answered
      split
      · exact pinned.take fun of same => nomatch same
      · exact pinned
  | symbolPut | filpClose | vfree =>
      cases answered
      exact pinned.give _
  | _ =>
      cases answered
      exact pinned

theorem Lenders.Pinned.answer {op : DriverOp}
    {reply : LockedOp.Reply AccessOp.Reply FreeOp.Reply op} (pinned : m.Pinned)
    (answered : m.answer op reply m') : m'.Pinned := by
  cases op with
  | outer op =>
      cases op with
      | h2d op => exact pinned.h2dAnswer answered
      | symbolGet => exact pinned.symbolGet answered
      | symbolPut =>
          cases answered
          exact pinned.give _
      | _ =>
          cases answered
          exact pinned
  | _ =>
      cases answered
      exact pinned

theorem Lenders.Pinned.moves (pinned : m.Pinned) (moved : m.Moves m') : m'.Pinned := by
  intro other positive
  cases moved with
  | load of =>
      by_cases here : other = of
      · rw [here]
        exact Function.update_self ..
      · exact (Function.update_of_ne here ..).trans (pinned other positive)
  | unload of free =>
      by_cases here : other = of
      · rw [here] at positive
        exact absurd free (Nat.ne_of_gt positive)
      · exact (Function.update_of_ne here ..).trans (pinned other positive)

theorem Lenders.Moves.count (moved : m.Moves m') : m'.count = m.count := by
  cases moved with
  | load | unload => rfl

/-! All interleavings -/

variable {t : Timing} {pciName : PciDev → TextFormat.Text} {procRoot : Bool}
variable {loaded : Provider → Bool} {pool pool' : LenderPool}

/-- The invariant: each thread repays what it holds, and a lent module stays. -/
def LoansBalanced (pool : LenderPool) : Prop :=
  driverLedger.Lent pool pool.shared.holdings pool.shared.lenders.count ∧
    pool.shared.lenders.Pinned

theorem LoansBalanced.step (balanced : LoansBalanced pool)
    (step : Pool.Step lenderSystem (DriverRuns t pciName) (fun _ _ _ => True) pool pool') :
    LoansBalanced pool' := by
  obtain ⟨lent, pinned⟩ := balanced
  cases step with
  | start idle allowed => exact ⟨lent.start idle (driverRuns_repays allowed) _, pinned⟩
  | @call tid op next reply s turn _ answered =>
      obtain ⟨-, lending, held⟩ := answered
      refine ⟨?_, pinned.answer lending⟩
      rw [Pool.resume_shared, held]
      exact lent.call turn (driverLedger_barred _ _) (Lenders.answer_counts lending) s
  | interfere moved =>
      obtain ⟨held, moved⟩ := moved
      unfold LoansBalanced
      rw [held]
      rcases moved with ⟨-, kept⟩ | ⟨-, moved⟩
      · rw [kept]
        exact ⟨lent.move _, pinned⟩
      · rw [moved.count]
        exact ⟨lent.move _, pinned.moves moved⟩

theorem lenderRun_balanced (run : LenderRun t pciName procRoot loaded pool) :
    LoansBalanced pool := by
  refine run.invariant LoansBalanced ⟨⟨?_, ?_⟩, ?_⟩ fun _ _ here step => here.step step
  · exact fun tid => ensures_done rfl
  · exact fun r => ⟨∅, fun tid => by simp [initialLenderPool], rfl⟩
  · exact fun of positive => absurd positive (Nat.lt_irrefl 0)

/-- Whatever fails and however the calls interleave with each other and with loads and unloads of
the other modules: a thread holds what its next step uses or gives back, a module stays loaded while
a thread holds a reference to it, a thread that has returned holds nothing, and each thing is taken
as often as threads hold it. -/
theorem loans_repaid (t : Timing) (pciName : PciDev → TextFormat.Text) (procRoot : Bool)
    (loaded : Provider → Bool) (pool : LenderPool)
    (run : LenderRun t pciName procRoot loaded pool) :
    (∀ tid op next, pool.threads tid = .call op next →
      driverLedger.uses op ∪ driverLedger.releases op ⊆ pool.shared.holdings tid) ∧
    (∀ tid of, .symbol of ∈ pool.shared.holdings tid → pool.shared.lenders.loaded of = true) ∧
    (∀ tid, pool.threads tid = .done () → pool.shared.holdings tid = ∅) ∧
    ∀ r, {tid | r ∈ pool.shared.holdings tid}.encard = pool.shared.lenders.count r := by
  obtain ⟨lent, pinned⟩ := lenderRun_balanced run
  refine ⟨?_, ?_, ?_, ?_⟩
  · intro tid op next turn
    have ready := lent.ready turn
    exact Set.union_subset ready.used ready.released
  · intro tid of held
    exact pinned of (lent.positive held)
  · exact fun tid done => lent.returned done
  · exact fun r => lent.encard r

/-! A read of "net" on its way -/

theorem DriverOp.Plain.lenders {op : DriverOp} (plain : op.Plain) (m : Lenders)
    {reply : LockedOp.Reply AccessOp.Reply FreeOp.Reply op} : m.answer op reply m := by
  cases op with
  | outer op =>
      cases op with
      | h2d | symbolGet | symbolPut => exact plain.elim
      | _ => exact rfl
  | _ => exact rfl

theorem DriverOp.Plain.holdings {op : DriverOp} (plain : op.Plain) (holdings : Nat → Set Loan)
    {tid : Nat} {reply : LockedOp.Reply AccessOp.Reply FreeOp.Reply op} :
    Function.update holdings tid (driverLedger.after (holdings tid) op reply) = holdings := by
  rw [plain.borrows.after reply, Function.update_eq_self]

/-- A program that calls no other module runs as it does without them. -/
theorem solo_beside {α : Type} {tid : Nat} {program program' : DriverCode α} {s s' : DriverState}
    (m : Lenders) (holdings : Nat → Set Loan) (calls : program.Calls DriverOp.Plain)
    (ran : (Pool.solo driverSystem tid).Steps (program, s) (program', s')) :
    (Pool.solo lenderSystem tid).Steps (program, ⟨s, m, holdings⟩)
      (program', ⟨s', m, holdings⟩) := by
  have general : ∀ start : DriverCode α × DriverState,
      (Pool.solo driverSystem tid).Steps start (program', s') → start.1.Calls DriverOp.Plain →
        (Pool.solo lenderSystem tid).Steps (start.1, ⟨start.2, m, holdings⟩)
          (program', ⟨s', m, holdings⟩) := by
    intro start path
    induction path using Relation.ReflTransGen.head_induction_on with
    | refl => exact fun _ => .refl
    | head first _ ih =>
        intro calls
        cases first with
        | @call op next s₀ s₁ reply answered =>
            have here : lenderSystem.answer tid ⟨s₀, m, holdings⟩ op reply ⟨s₁, m, holdings⟩ :=
              ⟨answered, calls.1.lenders m, (calls.1.holdings holdings).symm⟩
            exact .head (.call here) (ih (calls.2 reply))
        | @interfere _ s₀ s₁ moved =>
            have here : lenderSystem.interfere ⟨s₀, m, holdings⟩ ⟨s₁, m, holdings⟩ :=
              ⟨rfl, Or.inl ⟨moved, rfl⟩⟩
            exact .head (.interfere here) (ih calls)
  exact general _ ran calls

theorem free_beside {s : Platform} {tid : Nat} {m : Lenders} {holdings : Nat → Set Loan}
    (op : FreeOp) (plain : op.Plain) (reply : op.Reply) {next : op.Reply → DriverCode Unit}
    {finish : DriverCode Unit × Lending} (answered : freeAnswer s op reply s)
    (rest : (Pool.solo lenderSystem tid).Steps (next reply, ⟨⟨none, s⟩, m, holdings⟩) finish) :
    (Pool.solo lenderSystem tid).Steps (.call (.outer op) next, ⟨⟨none, s⟩, m, holdings⟩)
      finish := by
  have calls : DriverOp.Plain (.outer op) := plain
  have here : lenderSystem.answer tid ⟨⟨none, s⟩, m, holdings⟩ (.outer op) reply
      ⟨⟨none, s⟩, m, holdings⟩ :=
    ⟨⟨answered, rfl⟩, calls.lenders m, (calls.holdings holdings).symm⟩
  exact .head (.call here) rest

/-- A read of "net" finds the buzz module and comes to its call. -/
theorem netRead_beside {s : Platform} {index : Fin ambaPciDevMax} (pdev : PciDev)
    (used : (s.devs index).inUse = true) (attached : (s.devs index).pdev = some pdev) (tid : Nat)
    {m : Lenders} (holdings : Nat → Set Loan) (loaded : m.loaded .buzz = true) :
    ∃ next, (Pool.solo lenderSystem tid).Steps
      (DriverCode.call (DriverCode.pcieProcNetRead index 0 0), ⟨⟨none, s⟩, m, holdings⟩)
      (.call (.outer (.busNetGet index (pdev.bus.setWidth 32) 32)) next,
        ⟨⟨none, s⟩, m.take (.symbol .buzz),
          Function.update holdings tid (holdings tid ∪ {.symbol .buzz})⟩) := by
  have looked : freeAnswer s (.peek index) (s.devs index).seen s := ⟨rfl, rfl⟩
  have inUse : ¬ (s.devs index).seen.inUse = false := by
    have same : (s.devs index).seen.inUse = true := used
    rw [same]
    decide
  have there : (s.devs index).seen.pdev = some pdev := attached
  have isAttached : (s.devs index).seen.pdev.isSome = true := by
    rw [there]
    rfl
  apply Exists.intro
  refine free_beside (.kernel (.kmalloc pageSize)) trivial true rfl ?_
  refine free_beside (.peek index) trivial _ looked ?_
  dsimp only [Prog.bind]
  rw [if_neg inUse]
  refine free_beside (.peek index) trivial _ looked ?_
  dsimp only [Prog.bind]
  rw [if_pos isAttached]
  refine free_beside (.peek index) trivial _ looked ?_
  dsimp only [Prog.bind]
  rw [there]
  have taken : driverLedger.after (holdings tid) (.outer (.symbolGet .busNetGet)) true =
      holdings tid ∪ {.symbol .buzz} := congrArg (· ∪ _) Set.sdiff_empty
  have found : lenderSystem.answer tid ⟨⟨none, s⟩, m, holdings⟩
      (.outer (.symbolGet .busNetGet)) true ⟨⟨none, s⟩, m.take (.symbol .buzz), _⟩ :=
    ⟨⟨rfl, rfl⟩, ⟨loaded.symm, rfl⟩, congrArg (Function.update holdings tid) taken.symm⟩
  exact .head (.call found) .refl

/-- A call that starts where nothing runs yet. -/
theorem LenderRun.start (run : LenderRun t pciName procRoot loaded pool) {tid : Nat}
    (idle : pool.threads tid = .done ()) {program rest : DriverCode Unit}
    (runs : DriverRuns t pciName program) {s : Lending}
    (takes : (Pool.solo lenderSystem tid).Steps (program, pool.shared) (rest, s)) :
    LenderRun t pciName procRoot loaded (pool.resume tid rest s) := by
  have started := run.step (.start idle runs)
  have solo : (Pool.solo lenderSystem tid).Steps
      ((pool.resume tid program pool.shared).threads tid, pool.shared) (rest, s) := by
    rw [Pool.resume_same]
    exact takes
  have taken := started.solo (fun _ _ _ => trivial) solo
  rw [Pool.resume_resume] at taken
  exact taken

/-- A card is added, and a read of its "net" holds the one reference to the buzz module when it
calls it. -/
theorem loans_repaid_net : ∃ pool next,
    LenderRun ⟨1000, 1⟩ (fun _ => []) true (fun _ => true) pool ∧
      pool.threads 1 = .call (.outer (.busNetGet 0 1 32)) next ∧
      .symbol .buzz ∈ pool.shared.holdings 1 ∧ pool.shared.lenders.loaded .buzz = true ∧
      pool.shared.holdings 0 = ∅ ∧
      {tid | .symbol .buzz ∈ pool.shared.holdings tid}.encard = 1 := by
  have added : Returns anyReply (pciePciBusNotify .addDevice (cardAt 1 1 ambaPciTargetDeviceId)
      (platformInit true)) romTable :=
    eval_getD_returns promptReply (fun _ _ _ => trivial) _ _ (by rfl)
  have ran := Access.alone_steps
    ((Access.pciePciBusNotify_early .addDevice _).mono fun _ => AccessOp.Early.stays)
    (by rw [Access.pciePciBusNotify_run]; exact (returns_map_iff _ _ _).mpr ⟨_, added, rfl⟩)
  have run₁ : LenderRun ⟨1000, 1⟩ (fun _ => []) true (fun _ => true) _ :=
    LenderRun.start .init rfl (.notify .addDevice (cardAt 1 1 ambaPciTargetDeviceId))
      (solo_beside _ _ underLock_plain (underLock_solo 0 ran))
  have used : (romTable.devs 0).inUse = true := by decide
  obtain ⟨next, asks⟩ := netRead_beside (cardAt 1 1 ambaPciTargetDeviceId) used (by decide) 1
    (m := ⟨fun _ => true, fun _ => 0⟩) (fun _ => ∅) rfl
  have run₂ := LenderRun.start run₁ rfl (.netRead 0 0 0) asks
  obtain ⟨holds, stays, returned, counted⟩ := loans_repaid _ _ _ _ _ run₂
  have held := holds 1 _ next Pool.resume_same (Or.inl rfl : .symbol .buzz ∈ _)
  exact ⟨_, next, run₂, Pool.resume_same, held, stays 1 .buzz held, returned 0 rfl,
    counted (.symbol .buzz)⟩

end AmbaPci

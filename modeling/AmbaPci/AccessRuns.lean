import AmbaPci.InteractionLocked
import AmbaPci.SlotAccesses

set_option autoImplicit false

/- What the accesses of a locked section do to the table, and that a section that runs alone does
what the whole-table functions of the driver say. -/
namespace AmbaPci

open Interaction

/-- Moves that need no lock: a timer expires, or the workqueue starts the queued work. -/
inductive TimerMove (s : Platform) : Platform → Prop
  | timerExpires {index : Fin ambaPciDevMax}
      (armed : (s.devs index).bootTimeoutWork.pending = .armed) :
      TimerMove s (s.setDev index
        { s.devs index with
          bootTimeoutWork := { (s.devs index).bootTimeoutWork with pending := .queued } })
  | workStarts {index : Fin ambaPciDevMax}
      (queued : (s.devs index).bootTimeoutWork.pending = .queued)
      (returned : (s.devs index).bootTimeoutWork.running = false) :
      TimerMove s (s.setDev index
        { s.devs index with bootTimeoutWork := { pending := .idle, running := true } })

def Entry.withWork (e : Entry) (work : DelayedWork) : Entry := { e with bootTimeoutWork := work }

/-- What an access replies and does, where it needs no kernel. -/
def accessAnswer : Platform → (op : AccessOp) → op.Reply → Platform → Prop
  | s, .read index, e, s' => e = (s.devs index).seen ∧ s' = s
  | s, .write index field, _, s' => s' = s.setDev index ((s.devs index).store field)
  | s, .cancelWork index, _, s' =>
      s' = s.setDev index ((s.devs index).withWork
        (cancelDelayedWork (s.devs index).bootTimeoutWork))
  | s, .scheduleWork index, _, s' =>
      s' = s.setDev index ((s.devs index).withWork
        (scheduleDelayedWork (s.devs index).bootTimeoutWork))
  | s, .workLeaves index, _, s' =>
      (s.devs index).bootTimeoutWork.running = true ∧
        s' = s.setDev index ((s.devs index).withWork
          { (s.devs index).bootTimeoutWork with running := false })
  | s, .nextDevId, id, s' => id = s.nextDevId ∧ s' = s
  | s, .setNextDevId id, _, s' => s' = { s with nextDevId := id }
  | s, .procRoot, made, s' => made = s.procRoot ∧ s' = s
  | s, .kernel _, _, s' => s' = s

def accessMachine : Machine AccessOp AccessOp.Reply Platform where
  answer := accessAnswer
  interfere := TimerMove

/-- The accesses as steps of the functions that pass the table along. -/
def accessHandler : (op : AccessOp) → Platform → Host (op.Reply × Platform)
  | .read index, s => pure ((s.devs index).seen, s)
  | .write index field, s => pure ((), s.setDev index ((s.devs index).store field))
  | .cancelWork index, s =>
      pure ((), s.setDev index ((s.devs index).withWork
        (cancelDelayedWork (s.devs index).bootTimeoutWork)))
  | .scheduleWork index, s =>
      pure ((), s.setDev index ((s.devs index).withWork
        (scheduleDelayedWork (s.devs index).bootTimeoutWork)))
  | .workLeaves index, s =>
      pure ((), s.setDev index ((s.devs index).withWork
        { (s.devs index).bootTimeoutWork with running := false }))
  | .nextDevId, s => pure (s.nextDevId, s)
  | .setNextDevId id, s => pure ((), { s with nextDevId := id })
  | .procRoot, s => pure (s.procRoot, s)
  | .kernel op, s => do
      let reply ← perform op
      pure (reply, s)

theorem accessHandler_answers {s s' : Platform} {op : AccessOp} {reply : op.Reply}
    (answered : accessMachine.answer s op reply s') :
    (accessHandler op s).Returns anyReply (reply, s') := by
  cases op with
  | read index =>
      obtain ⟨same, kept⟩ := answered
      rw [same, kept]
      exact .done _
  | nextDevId =>
      obtain ⟨same, kept⟩ := answered
      rw [same, kept]
      exact .done _
  | procRoot =>
      obtain ⟨same, kept⟩ := answered
      rw [same, kept]
      exact .done _
  | workLeaves index =>
      rw [answered.2]
      exact .done _
  | kernel op =>
      have kept : s' = s := answered
      rw [kept]
      exact .call op _ reply _ trivial (.done _)
  | _ =>
      cases answered
      exact .done _

/-- A section that runs alone, as a function of the table. -/
def Access.run {α : Type} (program : Access α) (s : Platform) : Host (α × Platform) :=
  program.interpState accessHandler s

theorem Access.alone_returns {α : Type} {program : Access α} {value : α} {s s' : Platform}
    (ran : accessMachine.alone.Steps (program, s) (.done value, s')) :
    (program.run s).Returns anyReply (value, s') :=
  Machine.alone_returns (fun _ _ _ _ => accessHandler_answers) ran

/-- Every access but the return of the work function, which needs that it runs. -/
def AccessOp.Stays : AccessOp → Prop
  | .workLeaves _ => False
  | _ => True

theorem answers_accessHandler {s s' : Platform} {op : AccessOp} {reply : op.Reply}
    (stays : op.Stays) (returned : (accessHandler op s).Returns anyReply (reply, s')) :
    accessMachine.answer s op reply s' := by
  cases op with
  | read index =>
      cases (Prog.returns_done_iff _ _).mp returned
      exact ⟨rfl, rfl⟩
  | nextDevId =>
      cases (Prog.returns_done_iff _ _).mp returned
      exact ⟨rfl, rfl⟩
  | procRoot =>
      cases (Prog.returns_done_iff _ _).mp returned
      exact ⟨rfl, rfl⟩
  | workLeaves index => exact stays.elim
  | kernel op =>
      obtain ⟨reply', -, returned⟩ := (Prog.returns_call_iff _ _ _).mp returned
      cases (Prog.returns_done_iff _ _).mp returned
      rfl
  | _ =>
      cases (Prog.returns_done_iff _ _).mp returned
      rfl

/-- The other way round: what the function of the table returns, the section does alone. -/
theorem Access.alone_steps {α : Type} {program : Access α} (stays : program.Calls AccessOp.Stays)
    {value : α} {s s' : Platform} (returned : (program.run s).Returns anyReply (value, s')) :
    accessMachine.alone.Steps (program, s) (.done value, s') := by
  induction program generalizing s with
  | done result =>
      cases (Prog.returns_done_iff _ _).mp returned
      exact .refl
  | call op next ih =>
      obtain ⟨⟨reply, s₁⟩, first, rest⟩ := (Prog.returns_bind_iff _ _ _).mp returned
      exact Machine.Steps.call (answers_accessHandler stays.1 first) (ih reply (stays.2 reply) rest)

namespace Access

variable {α β : Type} {s : Platform} {index : Fin ambaPciDevMax}

@[simp] theorem run_done (value : α) : run (.done value) s = .done (value, s) := rfl

theorem run_bind (first : Access α) (next : α → Access β) (s : Platform) :
    run (first >>= next) s = run first s >>= fun answered => run (next answered.1) answered.2 :=
  Prog.interpState_bind accessHandler first next s

theorem run_read (next : Entry → Access β) :
    run (read index >>= next) s = run (next (s.devs index).seen) s := rfl

theorem run_write (field : EntryWrite) (next : Unit → Access β) :
    run (write index field >>= next) s =
      run (next ()) (s.setDev index ((s.devs index).store field)) := rfl

theorem run_kernel (op : Op) (next : op.Reply → Access β) :
    run (kernel op >>= next) s = perform op >>= fun reply => run (next reply) s := rfl

theorem run_cancelWork (next : Unit → Access β) :
    run (AccessOp.perform (.cancelWork index) >>= next) s =
      run (next ()) (s.setDev index ((s.devs index).withWork
        (cancelDelayedWork (s.devs index).bootTimeoutWork))) := rfl

theorem run_scheduleWork (next : Unit → Access β) :
    run (AccessOp.perform (.scheduleWork index) >>= next) s =
      run (next ()) (s.setDev index ((s.devs index).withWork
        (scheduleDelayedWork (s.devs index).bootTimeoutWork))) := rfl

theorem run_nextDevId (next : BitVec 32 → Access β) :
    run (AccessOp.perform .nextDevId >>= next) s = run (next s.nextDevId) s := rfl

theorem run_setNextDevId (id : BitVec 32) (next : Unit → Access β) :
    run (AccessOp.perform (.setNextDevId id) >>= next) s =
      run (next ()) { s with nextDevId := id } := rfl

theorem run_onHost (program : Host α) : run (onHost program) s = program >>= fun value =>
    pure (value, s) := by
  induction program with
  | done value => rfl
  | call op next ih =>
      change (perform op >>= fun reply => run (onHost (next reply)) s) = _
      simp only [ih]
      rfl

/-- The code between two accesses of the table. -/
theorem run_onHost_bind (program : Host α) (next : α → Access β) :
    run (onHost program >>= next) s = program >>= fun value => run (next value) s := by
  rw [run_bind, run_onHost, Prog.bind_assoc]
  rfl

theorem run_withPdev {pdev : PciDev} (attached : (s.devs index).pdev = some pdev)
    (next : PciDev → Access β) : run (withPdev index next) s = run (next pdev) s := by
  unfold withPdev
  rw [run_read]
  have seen : (s.devs index).seen.pdev = some pdev := attached
  rw [seen]

/-! One entry -/

/-- On one entry, the section's code does what a function of the entry says. -/
def RunsOn (program : Access α) (index : Fin ambaPciDevMax) (e : Entry)
    (whole : Host (α × Entry)) : Prop :=
  ∀ s : Platform, run program (s.setDev index e) =
    whole >>= fun result => pure (result.1, s.setDev index result.2)

variable {e : Entry}

theorem RunsOn.returns_iff {program : Access α} {whole : Host (α × Entry)}
    (runs : RunsOn program index (s.devs index) whole) {value : α} {s' : Platform} :
    (program.run s).Returns anyReply (value, s') ↔
      ∃ e', whole.Returns anyReply (value, e') ∧ s' = s.setDev index e' := by
  have here := runs s
  rw [Platform.setDev_self] at here
  rw [here, Prog.returns_map_iff]
  constructor
  · rintro ⟨⟨value', e'⟩, returned, same⟩
    cases same
    exact ⟨e', returned, rfl⟩
  · rintro ⟨e', returned, rfl⟩
    exact ⟨(value, e'), returned, rfl⟩

theorem RunsOn.bind {first : Access α} {next : α → Access β} {whole : Host (α × Entry)}
    {later : α × Entry → Host (β × Entry)} (before : RunsOn first index e whole)
    (after : ∀ value e', whole.Returns anyReply (value, e') →
      RunsOn (next value) index e' (later (value, e'))) :
    RunsOn (first >>= next) index e (whole >>= later) := by
  intro s
  rw [run_bind, before, Prog.bind_assoc, Prog.bind_assoc]
  exact Prog.bind_congr_returns fun result returned => after result.1 result.2 returned s

theorem RunsOn.done (value : α) : RunsOn (.done value) index e (pure (value, e)) :=
  fun _ => rfl

theorem RunsOn.read {next : Entry → Access β} {whole : Host (β × Entry)}
    (after : RunsOn (next e.seen) index e whole) :
    RunsOn (Access.read index >>= next) index e whole := by
  intro s
  rw [run_read, Platform.setDev_same]
  exact after s

theorem RunsOn.write {field : EntryWrite} {next : Unit → Access β} {whole : Host (β × Entry)}
    (after : RunsOn (next ()) index (e.store field) whole) :
    RunsOn (Access.write index field >>= next) index e whole := by
  intro s
  rw [run_write, Platform.setDev_same, Platform.setDev_setDev]
  exact after s

theorem RunsOn.kernel {op : Op} {next : op.Reply → Access β} {whole : op.Reply → Host (β × Entry)}
    (after : ∀ reply, RunsOn (next reply) index e (whole reply)) :
    RunsOn (Access.kernel op >>= next) index e (perform op >>= whole) := by
  intro s
  rw [run_kernel, Prog.perform_bind, Prog.perform_bind, Prog.call_bind]
  congr 1
  funext reply
  exact after reply s

theorem RunsOn.onHost {program : Host α} {next : α → Access β} {whole : α → Host (β × Entry)}
    (after : ∀ value, RunsOn (next value) index e (whole value)) :
    RunsOn (Access.onHost program >>= next) index e (program >>= whole) := by
  intro s
  rw [run_onHost_bind, Prog.bind_assoc]
  congr 1
  funext value
  exact after value s

theorem RunsOn.cancelWork {next : Unit → Access β} {whole : Host (β × Entry)}
    (after : RunsOn (next ()) index (e.withWork (cancelDelayedWork e.bootTimeoutWork)) whole) :
    RunsOn (AccessOp.perform (.cancelWork index) >>= next) index e whole := by
  intro s
  rw [run_cancelWork, Platform.setDev_same, Platform.setDev_setDev]
  exact after s

theorem RunsOn.scheduleWork {next : Unit → Access β} {whole : Host (β × Entry)}
    (after : RunsOn (next ()) index (e.withWork (scheduleDelayedWork e.bootTimeoutWork)) whole) :
    RunsOn (AccessOp.perform (.scheduleWork index) >>= next) index e whole := by
  intro s
  rw [run_scheduleWork, Platform.setDev_same, Platform.setDev_setDev]
  exact after s

theorem RunsOn.oops : RunsOn (Access.onHost AmbaPci.oops : Access β) index e AmbaPci.oops := by
  intro s
  rw [run_onHost]
  unfold AmbaPci.oops
  simp only [Prog.call_bind]
  congr 1
  funext impossible
  exact nomatch impossible

theorem RunsOn.withPdev {pdev : PciDev} (attached : e.pdev = some pdev)
    {next : PciDev → Access β} {whole : Host (β × Entry)}
    (after : RunsOn (next pdev) index e whole) :
    RunsOn (Access.withPdev index next) index e whole := by
  intro s
  rw [run_withPdev (by rw [Platform.setDev_same]; exact attached)]
  exact after s

/-- A branch both sides take alike. -/
theorem RunsOn.ite {cond : Prop} [Decidable cond] {yes no : Access β}
    {wholeYes wholeNo : Host (β × Entry)} (first : cond → RunsOn yes index e wholeYes)
    (second : ¬ cond → RunsOn no index e wholeNo) :
    RunsOn (if cond then yes else no) index e (if cond then wholeYes else wholeNo) := by
  by_cases holds : cond
  · rw [if_pos holds, if_pos holds]
    exact first holds
  · rw [if_neg holds, if_neg holds]
    exact second holds

theorem pcieMapFoundBar_run {pdev : PciDev} (attached : e.pdev = some pdev) :
    RunsOn (pcieMapFoundBar index) index e (AmbaPci.pcieMapFoundBar pdev e) := by
  apply RunsOn.withPdev attached
  apply RunsOn.read
  apply RunsOn.kernel; intro res
  apply RunsOn.ite
  · exact fun _ => .done _
  · intro _
    apply RunsOn.onHost; intro ret
    apply RunsOn.ite
    · exact fun _ => .done _
    · intro _
      apply RunsOn.read
      apply RunsOn.kernel; intro base
      apply RunsOn.write
      cases base with
      | none => exact .done _
      | some base => exact .done _

theorem pcieMapBootBar_run {pdev : PciDev} (attached : e.pdev = some pdev) :
    RunsOn (pcieMapBootBar index) index e (AmbaPci.pcieMapBootBar pdev e) := by
  apply RunsOn.read
  apply RunsOn.ite
  · intro _
    apply RunsOn.withPdev attached
    unfold pcieBootBarFind
    cases AmbaPci.pcieBootBarFind pdev with
    | none => exact .done _
    | some bar =>
        apply RunsOn.write
        apply RunsOn.write
        exact pcieMapFoundBar_run attached
  · exact fun _ => pcieMapFoundBar_run attached

theorem pcieBootBarMapRetry_run {pdev : PciDev} (attached : e.pdev = some pdev) (attempts : Nat)
    (ret : Int) :
    RunsOn (pcieBootBarMapRetry index attempts ret) index e
      (AmbaPci.pcieBootBarMapRetry pdev attempts ret e) := by
  induction attempts generalizing ret e with
  | zero => exact .done ret
  | succ attempts ih =>
      apply RunsOn.bind (pcieMapBootBar_run attached)
      intro ret e' mapped
      have attached' : e'.pdev = some pdev :=
        (pcieMapBootBar_returns attached mapped).1.pdev.trans attached
      apply RunsOn.ite
      · exact fun _ => .done ret
      · intro _
        apply RunsOn.ite
        · exact fun _ => .done ret
        · intro _
          apply RunsOn.kernel; intro _
          exact ih attached' ret

theorem pcieBootBarEnsureMapped_run {pdev : PciDev} (attached : e.pdev = some pdev) :
    RunsOn (pcieBootBarEnsureMapped index) index e (AmbaPci.pcieBootBarEnsureMapped pdev e) := by
  apply RunsOn.read
  apply RunsOn.ite
  · exact fun _ => .done _
  · intro _
    apply RunsOn.bind (pcieBootBarMapRetry_run attached _ _)
    intro ret e' _
    apply RunsOn.ite
    · exact fun _ => .done _
    · exact fun _ => .done _

theorem refreshBootMapping_run {pdev : PciDev} (attached : e.pdev = some pdev) :
    RunsOn (refreshBootMapping index) index e (AmbaPci.refreshBootMapping pdev e) := by
  apply RunsOn.read
  apply RunsOn.ite
  · exact fun _ => pcieBootBarEnsureMapped_run attached
  · exact fun _ => .done _

theorem pcieDevRefreshBoardInfoLocked_run :
    RunsOn (pcieDevRefreshBoardInfoLocked index) index e
      (AmbaPci.pcieDevRefreshBoardInfoLocked e) := by
  apply RunsOn.read
  apply RunsOn.ite
  · exact fun _ => .done _
  · intro _
    apply RunsOn.read
    have seen : e.seen.pdev = e.pdev := rfl
    rw [seen]
    cases attached : e.pdev with
    | none => exact .done _
    | some pdev =>
        apply RunsOn.bind (refreshBootMapping_run attached)
        intro ret e' _
        apply RunsOn.ite
        · exact fun _ => .done _
        · intro _
          apply RunsOn.read
          have seen : e'.seen.boardInfoIsUpdated = e'.boardInfoIsUpdated ∧
              e'.seen.bootMemBase = e'.bootMemBase := ⟨rfl, rfl⟩
          rw [seen.1, seen.2]
          cases e'.boardInfoIsUpdated with
          | true => exact .done _
          | false =>
              cases mapped : e'.bootMemBase with
              | none => exact .done _
              | some base =>
                  apply RunsOn.onHost; intro bd
                  rw [← mapped]
                  exact .write (.write (.done _))

theorem pcieQueryDevInfoLocked_run (slot : Nat) :
    RunsOn (pcieQueryDevInfoLocked index slot) index e (AmbaPci.pcieQueryDevInfoLocked e slot) := by
  apply RunsOn.read
  apply RunsOn.read
  apply RunsOn.ite
  · exact fun _ => .done _
  · intro _
    apply RunsOn.bind pcieDevRefreshBoardInfoLocked_run
    intro ret e' _
    apply RunsOn.read
    apply RunsOn.read
    have seen : e'.seen.boardInfoIsUpdated = e'.boardInfoIsUpdated := rfl
    rw [seen]
    dsimp only
    split
    · exact .read (.done _)
    · exact .done _

theorem pcieDevInfoReadLocked_run :
    RunsOn (pcieDevInfoReadLocked index) index e
      (AmbaPci.pcieQueryDevInfoLocked e index.val >>= fun result =>
        pure ((result.1, result.2.seen), result.2)) := by
  apply RunsOn.bind (pcieQueryDevInfoLocked_run index.val)
  intro info e' _
  exact .read (.done _)

/-- A function that returns nothing but the entry. -/
def RunsAs (program : Access Unit) (index : Fin ambaPciDevMax) (e : Entry) (whole : Host Entry) :
    Prop :=
  RunsOn program index e (whole >>= fun e' => pure ((), e'))

theorem RunsAs.bind {first : Access Unit} {next : Unit → Access β} {whole : Host Entry}
    {later : Entry → Host (β × Entry)} (before : RunsAs first index e whole)
    (after : ∀ e', RunsOn (next ()) index e' (later e')) :
    RunsOn (first >>= next) index e (whole >>= later) := by
  have together : RunsOn (first >>= next) index e
      ((whole >>= fun e' => pure ((), e')) >>= fun result => later result.2) :=
    RunsOn.bind before fun _ e' _ => after e'
  rw [Prog.bind_assoc] at together
  exact together

theorem pcieBootBarUnmap_run {pdev : PciDev} (attached : e.pdev = some pdev) :
    RunsAs (pcieBootBarUnmap index) index e (AmbaPci.pcieBootBarUnmap pdev e) := by
  apply RunsOn.read
  have seen : e.seen.bootMemBase = e.bootMemBase := rfl
  rw [seen]
  unfold AmbaPci.pcieBootBarUnmap
  cases e.bootMemBase with
  | none => exact .done _
  | some base =>
      apply RunsOn.withPdev attached
      apply RunsOn.kernel; intro _
      exact .write (.done _)

theorem pcieEntryDetachPdev_run :
    RunsAs (pcieEntryDetachPdev index) index e (AmbaPci.pcieEntryDetachPdev e) := by
  apply RunsOn.read
  have seen : e.seen.pdev = e.pdev := rfl
  rw [seen]
  unfold AmbaPci.pcieEntryDetachPdev
  cases attached : e.pdev with
  | none => exact .done _
  | some pdev =>
      dsimp only
      rw [Prog.bind_assoc]
      apply RunsAs.bind (pcieBootBarUnmap_run attached)
      intro e'
      apply RunsOn.kernel; intro _
      exact .write (.done _)

theorem releaseProcNodes_run :
    RunsAs (releaseProcNodes index) index e (AmbaPci.releaseProcNodes e) := by
  apply RunsOn.read
  unfold AmbaPci.releaseProcNodes
  by_cases made : e.procDir = true
  · rw [if_pos made, if_pos (show e.seen.procDir = true from made), Prog.bind_assoc]
    apply RunsOn.onHost; intro _
    exact .write (.write (.done _))
  · rw [if_neg made, if_neg (show ¬ e.seen.procDir = true from made)]
    exact .done _

theorem pcieReleaseDev_run :
    RunsAs (pcieReleaseDev index) index e (AmbaPci.pcieReleaseDev e) := by
  apply RunsOn.read
  unfold AmbaPci.pcieReleaseDev
  by_cases free : (!e.inUse) = true
  · rw [if_pos free, if_pos (show (!e.seen.inUse) = true from free)]
    exact .done _
  · rw [if_neg free, if_neg (show ¬ (!e.seen.inUse) = true from free), Prog.bind_assoc]
    apply RunsAs.bind pcieEntryDetachPdev_run
    intro e'
    apply RunsOn.cancelWork
    rw [Prog.bind_assoc]
    apply RunsAs.bind releaseProcNodes_run
    intro e''
    iterate 8 apply RunsOn.write
    exact .done _

theorem pcieTryReconnectBootingLocked_run (pdev : PciDev) :
    RunsAs (pcieTryReconnectBootingLocked pdev index) index e
      (AmbaPci.pcieTryReconnectBootingLocked pdev e) := by
  apply RunsOn.kernel; intro _
  exact .write (.cancelWork (.write (.done _)))

theorem pcieRebootLocked_run :
    RunsOn (pcieRebootLocked index) index e (pure (AmbaPci.pcieRebootLocked e)) := by
  apply RunsOn.read
  unfold AmbaPci.pcieRebootLocked
  by_cases detached : e.pdev.isNone = true
  · rw [if_pos detached, if_pos (show e.seen.pdev.isNone = true from detached)]
    exact .done _
  · rw [if_neg detached, if_neg (show ¬ e.seen.pdev.isNone = true from detached)]
    apply RunsOn.read
    by_cases settled : e.state ≠ .connected
    · rw [if_pos settled, if_pos (show e.seen.state ≠ .connected from settled)]
      exact .done _
    · rw [if_neg settled, if_neg (show ¬ e.seen.state ≠ .connected from settled)]
      exact .write (.done _)

theorem pcieXferFirmwareLocked_run (t : Timing) (req : FwXfer) :
    RunsOn (pcieXferFirmwareLocked t req index) index e
      (AmbaPci.pcieXferFirmwareLocked t req e) := by
  apply RunsOn.read
  apply RunsOn.ite
  · exact fun _ => .done _
  · intro _
    apply RunsOn.read
    apply RunsOn.ite
    · exact fun _ => .done _
    · intro _
      apply RunsOn.bind pcieDevRefreshBoardInfoLocked_run
      intro ret e' _
      apply RunsOn.ite
      · exact fun _ => .done _
      · intro _
        apply RunsOn.read
        have seen : e'.seen.pdev = e'.pdev ∧ e'.seen.bootMemBase = e'.bootMemBase := ⟨rfl, rfl⟩
        rw [seen.1, seen.2]
        cases attached : e'.pdev with
        | none => exact .oops
        | some pdev =>
            cases mapped : e'.bootMemBase with
            | none => exact .oops
            | some base =>
                apply RunsOn.kernel; intro _
                apply RunsOn.read
                apply RunsOn.onHost; intro ret
                apply RunsOn.ite
                · exact fun _ => .done _
                · intro _
                  rw [← attached, ← mapped]
                  exact .write (.cancelWork (.scheduleWork (.done _)))

/-! The table -/

theorem pcieCreateProcNodes_run (s : Platform) (index : Fin ambaPciDevMax) (e : Entry) :
    run (pcieCreateProcNodes index) (s.setDev index e) =
      AmbaPci.pcieCreateProcNodes s.procRoot e index.val >>= fun result =>
        pure (result.1, s.setDev index result.2) := by
  have known : run (pcieCreateProcNodes index) (s.setDev index e) = run
      (if !s.procRoot then pure (-enodev)
      else do
        write index (.procName (some index.val))
        let made ← kernel (.procMkdir index.val)
        write index (.procDir made)
        if made = false then pure (-enomem)
        else do
          let created ← onHost (createProcEntries index.val pcieProcNodes)
          if created then pure 0
          else do
            let e ← read index
            onHost (removeProcSubtree e.procName)
            write index (.procDir false)
            write index (.procName none)
            pure (-enomem)) (s.setDev index e) := rfl
  rw [known]
  apply RunsOn.ite
  · exact fun _ => .done _
  · intro _
    apply RunsOn.write
    apply RunsOn.kernel; intro made
    apply RunsOn.write
    apply RunsOn.ite
    · exact fun _ => .done _
    · intro _
      apply RunsOn.onHost; intro created
      apply RunsOn.ite
      · exact fun _ => .done _
      · intro _
        apply RunsOn.read
        apply RunsOn.onHost; intro _
        exact .write (.write (.done _))

theorem pcieInitSlot_run (pdev : PciDev) (index : Fin ambaPciDevMax) (s : Platform) :
    run (pcieInitSlot pdev index) s = AmbaPci.pcieInitSlot pdev index s := by
  have nodes := pcieCreateProcNodes_run s index (s.devs index)
  rw [Platform.setDev_self] at nodes
  unfold pcieInitSlot AmbaPci.pcieInitSlot
  rw [run_bind, nodes, Prog.bind_assoc]
  congr 1
  funext ⟨ret, e⟩
  simp only [Prog.pure_eq_done, Prog.done_bind]
  by_cases failed : ret ≠ 0
  · rw [if_pos failed, if_pos failed]
    rfl
  · rw [if_neg failed, if_neg failed, run_kernel]
    congr 1
    funext _
    have fields : RunsOn (do
        write index (.phySlot (pciePhysicalSlots index))
        write index (.boardInfoIsUpdated false)
        write index (.boardInfo {})
        write index (.bootBar (-1))
        write index (.bootLen 0)
        write index (.bootMemBase none)
        write index (.state .disconnected)
        write index (.inUse true)
        pure (0 : Int)) index ((e.store (.pdev (some pdev))).store (.id s.nextDevId))
        (pure (0, { e with pdev := some pdev, id := s.nextDevId,
                           phySlot := pciePhysicalSlots index, boardInfoIsUpdated := false,
                           boardInfo := {}, bootBar := -1, bootLen := 0, bootMemBase := none,
                           state := .disconnected, inUse := true })) := by
      iterate 8 apply RunsOn.write
      exact .done 0
    rw [run_write, Platform.setDev_same, Platform.setDev_setDev, run_nextDevId, run_write,
      Platform.setDev_same, Platform.setDev_setDev, run_setNextDevId]
    exact fields { s with nextDevId := s.nextDevId + 1 }

theorem pcieHandleAddLocked_run (pdev : PciDev) (s : Platform) :
    run (pcieHandleAddLocked pdev) s =
      AmbaPci.pcieHandleAddLocked pdev s >>= fun s' => pure ((), s') := by
  unfold pcieHandleAddLocked AmbaPci.pcieHandleAddLocked
  cases getPciSlotId pdev with
  | none => rfl
  | some slotId =>
      dsimp only
      rw [run_read]
      by_cases used : (s.devs slotId).inUse = true
      · rw [if_pos used, if_pos (show (s.devs slotId).seen.inUse = true from used), run_read]
        by_cases settled : (s.devs slotId).state ≠ .booting
        · rw [if_pos settled, if_pos (show (s.devs slotId).seen.state ≠ .booting from settled)]
          rfl
        · rw [if_neg settled, if_neg (show ¬ (s.devs slotId).seen.state ≠ .booting from settled)]
          by_cases card : isVirtioCard pdev = true
          · rw [if_pos card, if_pos card]
            have reconnects : RunsAs (pcieTryReconnectBootingLocked pdev slotId) slotId
                (s.devs slotId) (AmbaPci.pcieTryReconnectBootingLocked pdev (s.devs slotId)) :=
              pcieTryReconnectBootingLocked_run pdev
            have reconnected := reconnects s
            rw [Platform.setDev_self] at reconnected
            rw [reconnected, Prog.bind_assoc, Prog.bind_assoc]
            rfl
          · rw [if_neg card, if_neg card]
            rfl
      · rw [if_neg used, if_neg (show ¬ (s.devs slotId).seen.inUse = true from used)]
        by_cases virtio : isVirtioCard pdev = true
        · rw [if_pos virtio, if_pos virtio, run_bind, pcieInitSlot_run, Prog.bind_assoc]
          congr 1
          funext ⟨ret, s'⟩
          dsimp only
          by_cases failed : ret ≠ 0
          · rw [if_pos failed, if_pos failed]
            rfl
          · rw [if_neg failed, if_neg failed]
            rfl
        · rw [if_neg virtio, if_neg virtio]
          by_cases rom : isBootRomCard pdev = true
          · rw [if_pos rom, if_pos rom, run_bind, pcieInitSlot_run, Prog.bind_assoc]
            rfl
          · rw [if_neg rom, if_neg rom]
            rfl

theorem pcieHandleDelLocked_run (pdev : PciDev) (s : Platform) :
    run (pcieHandleDelLocked pdev) s =
      AmbaPci.pcieHandleDelLocked pdev s >>= fun s' => pure ((), s') := by
  unfold pcieHandleDelLocked AmbaPci.pcieHandleDelLocked
  cases getPciSlotId pdev with
  | none => rfl
  | some slotId =>
      dsimp only
      rw [run_read]
      by_cases free : (!(s.devs slotId).inUse) = true
      · rw [if_pos free, if_pos (show (!(s.devs slotId).seen.inUse) = true from free)]
        rfl
      · rw [if_neg free, if_neg (show ¬ (!(s.devs slotId).seen.inUse) = true from free), run_read]
        by_cases booting : (s.devs slotId).state = .booting
        · rw [if_pos booting, if_pos (show (s.devs slotId).seen.state = .booting from booting)]
          have detaches : RunsAs (pcieEntryDetachPdev slotId) slotId (s.devs slotId)
              (AmbaPci.pcieEntryDetachPdev (s.devs slotId)) := pcieEntryDetachPdev_run
          have detached := detaches s
          rw [Platform.setDev_self] at detached
          rw [detached, Prog.bind_assoc, Prog.bind_assoc]
          rfl
        · rw [if_neg booting,
            if_neg (show ¬ (s.devs slotId).seen.state = .booting from booting)]
          have releases : RunsAs (pcieReleaseDev slotId) slotId (s.devs slotId)
              (AmbaPci.pcieReleaseDev (s.devs slotId)) := pcieReleaseDev_run
          have released := releases s
          rw [Platform.setDev_self] at released
          rw [released, Prog.bind_assoc, Prog.bind_assoc]
          rfl

theorem pciePciBusNotify_run (action : BusAction) (pdev : PciDev) (s : Platform) :
    run (pciePciBusNotify action pdev) s =
      AmbaPci.pciePciBusNotify action pdev s >>= fun s' => pure ((), s') := by
  cases action with
  | addDevice => exact pcieHandleAddLocked_run pdev s
  | delDevice => exact pcieHandleDelLocked_run pdev s
  | other => rfl

theorem enumerateSlot_run (slot : PhysicalSlot) (present : List PciDev) (s : Platform) :
    run (enumerateSlot slot present) s =
      AmbaPci.enumerateSlot slot present s >>= fun s' => pure ((), s') := by
  induction present generalizing s with
  | nil => rfl
  | cons pdev rest ih =>
      unfold enumerateSlot AmbaPci.enumerateSlot
      split
      · split
        · exact ih s
        · rw [run_bind, pcieHandleAddLocked_run, Prog.bind_assoc, Prog.bind_assoc]
          congr 1
          funext s'
          exact ih s'
      · exact ih s

theorem enumerateSlots_run (present : List PciDev) (slots : List (Fin ambaPciDevMax))
    (s : Platform) :
    run (enumerateSlots present slots) s =
      AmbaPci.enumerateSlots present slots s >>= fun s' => pure ((), s') := by
  induction slots generalizing s with
  | nil => rfl
  | cons index rest ih =>
      unfold enumerateSlots AmbaPci.enumerateSlots
      rw [run_bind, enumerateSlot_run, Prog.bind_assoc, Prog.bind_assoc]
      congr 1
      funext s'
      exact ih s'

theorem queryDevs_run (slots : List (Fin ambaPciDevMax)) (s : Platform) :
    run (queryDevs slots) s = AmbaPci.queryDevs slots s := by
  induction slots generalizing s with
  | nil => rfl
  | cons index rest ih =>
      unfold queryDevs AmbaPci.queryDevs
      have asks : RunsOn (pcieQueryDevInfoLocked index index.val) index (s.devs index)
          (AmbaPci.pcieQueryDevInfoLocked (s.devs index) index.val) :=
        pcieQueryDevInfoLocked_run index.val
      have asked := asks s
      rw [Platform.setDev_self] at asked
      rw [run_bind, asked, Prog.bind_assoc]
      congr 1
      funext ⟨info, e⟩
      dsimp only [Prog.pure_eq_done, Prog.done_bind]
      rw [run_bind, ih]
      rfl

end Access

end AmbaPci

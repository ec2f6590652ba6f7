import AmbaPci.LockDiscipline

set_option autoImplicit false

/- Whether the proc handlers, the hotplug notifications, the calls and module exit can come to wait
for each other. -/
namespace AmbaPci

open Interaction Interaction.Prog Interaction.Machine

/-! What the threads hold in a shared state -/

def LockWorld.hold (s : LockWorld) (removing : Option Nat) (tid : Nat) : Hold where
  driver := decide (s.owner .driver = some tid)
  rescan := decide (s.owner .rescan = some tid)
  inside := (s.inside tid).isSome
  removing := removing

/-- What a kernel service leaves alone. -/
theorem kernelAnswer_frame {s s' : LockWorld} {op : Op} {reply : op.Reply}
    (answered : kernelAnswer s op reply s') : s'.owner = s.owner ∧ s'.inside = s.inside := by
  unfold kernelAnswer at answered
  split at answered
  · split at answered
    · rw [answered]
      exact ⟨rfl, rfl⟩
    · rw [answered]
      exact ⟨rfl, rfl⟩
  · rw [answered]
    exact ⟨rfl, rfl⟩
  · rw [answered.2]
    exact ⟨rfl, rfl⟩
  · rw [answered]
    exact ⟨rfl, rfl⟩

/-- Who owns the locks after a step. -/
def ThreadOp.ownerAfter (tid : Nat) (owner : LockName → Option Nat) :
    ThreadOp → LockName → Option Nat
  | .lock name => Function.update owner name (some tid)
  | .unlock name => Function.update owner name none
  | _ => owner

/-- Who is in a handler after a step. -/
def ThreadOp.insideAfter (tid : Nat) (inside : Nat → Option (Nat × ProcNode)) :
    (op : ThreadOp) → op.Reply → Nat → Option (Nat × ProcNode)
  | .procEnter index node, entered =>
      if entered then Function.update inside tid (some (index.val, node)) else inside
  | .procLeave, _ => Function.update inside tid none
  | _, _ => inside

variable {s s' : LockWorld} {tid other : Nat} {op : ThreadOp} {reply : op.Reply}

theorem threadAnswer_moves (answered : threadAnswer tid s op reply s') :
    s'.owner = op.ownerAfter tid s.owner ∧ s'.inside = op.insideAfter tid s.inside reply := by
  cases op with
  | lock name => rw [answered.2]; exact ⟨rfl, rfl⟩
  | table => rw [answered.2]; exact ⟨rfl, rfl⟩
  | peek index => rw [answered.2]; exact ⟨rfl, rfl⟩
  | procDrainRoot => rw [answered.2]; exact ⟨rfl, rfl⟩
  | kernel op => exact kernelAnswer_frame answered
  | procEnter index node =>
      rw [answered.2]
      cases reply with
      | false => exact ⟨rfl, rfl⟩
      | true => exact ⟨rfl, rfl⟩
  | _ =>
      simp only [threadAnswer] at answered
      rw [answered]
      exact ⟨rfl, rfl⟩

/-- What a thread holds in the shared state follows its steps. -/
theorem hold_self {removing : Option Nat} (permits : (s.hold removing tid).Permits op)
    (answered : threadAnswer tid s op reply s') :
    s'.hold ((s.hold removing tid).after op reply).removing tid =
      (s.hold removing tid).after op reply := by
  obtain ⟨owner, inside⟩ := threadAnswer_moves answered
  cases op with
  | lock name =>
      cases name <;> simp [LockWorld.hold, Hold.after, owner, inside, ThreadOp.ownerAfter,
        ThreadOp.insideAfter]
  | unlock name =>
      cases name <;> simp [LockWorld.hold, Hold.after, owner, inside, ThreadOp.ownerAfter,
        ThreadOp.insideAfter]
  | procEnter index node =>
      have outside : s.inside tid = none := by simpa [LockWorld.hold, Hold.Permits] using permits
      cases reply <;> simp [LockWorld.hold, Hold.after, owner, inside, ThreadOp.ownerAfter,
        ThreadOp.insideAfter, outside]
  | _ =>
      simp [LockWorld.hold, Hold.after, owner, inside, ThreadOp.ownerAfter, ThreadOp.insideAfter]

/-- The steps of another thread change nothing of what a thread holds: a lock that is taken was
free, and a lock that is released was the other one's. -/
theorem hold_other {removing removing' : Option Nat} (apart : other ≠ tid)
    (permits : (s.hold removing' tid).Permits op) (answered : threadAnswer tid s op reply s') :
    s'.hold removing other = s.hold removing other := by
  obtain ⟨owner, inside⟩ := threadAnswer_moves answered
  have inside' : s'.inside other = s.inside other := by
    rw [inside]
    cases op with
    | procEnter index node =>
        cases reply with
        | false => rfl
        | true => exact Function.update_of_ne apart _ _
    | procLeave => exact Function.update_of_ne apart _ _
    | _ => rfl
  have owner' : ∀ name, s'.owner name = some other ↔ s.owner name = some other := by
    intro name
    rw [owner]
    cases op with
    | lock taken =>
        by_cases same : name = taken
        · subst same
          have free : s.owner name = none := answered.1
          simp [ThreadOp.ownerAfter, free, Ne.symm apart]
        · simp [ThreadOp.ownerAfter, Function.update_of_ne same]
    | unlock given =>
        have own : s.owner given = some tid := by
          cases given <;> simpa [LockWorld.hold, Hold.Permits] using permits
        by_cases same : name = given
        · subst same
          simp [ThreadOp.ownerAfter, own, Ne.symm apart]
        · simp [ThreadOp.ownerAfter, Function.update_of_ne same]
    | _ => rfl
  simp only [LockWorld.hold, inside', owner']

/-! The invariant of a pool -/

/-- A directory that a thread removes: the thread has the driver lock, so that no entry comes back,
and the handlers that are still inside never wait again. -/
structure Removal (pool : Threads) (tid name : Nat) : Prop where
  owns : pool.shared.owner .driver = some tid
  unlinked : ∀ node, pool.shared.nodes name node = false
  past : ∀ other node, pool.shared.inside other = some (name, node) →
    (pool.threads other).Calls fun op => ¬ op.MayWait

/-- Every thread keeps to its locks, and `removing` is what each of them has unlinked. -/
structure Disciplined (pool : Threads) (removing : Nat → Option Nat) : Prop where
  orderly : ∀ tid, Hold.Orderly (· = Hold.idle) (pool.threads tid)
    (pool.shared.hold (removing tid) tid)
  removals : ∀ tid name, removing tid = some name → Removal pool tid name

variable {pool : Threads} {removing : Nat → Option Nat}

theorem Disciplined.allows (disciplined : Disciplined pool removing)
    {next : op.Reply → Thread Unit} (turn : pool.threads tid = .call op next) :
    (pool.shared.hold (removing tid) tid).Allows op := by
  have here := disciplined.orderly tid
  rw [turn] at here
  exact ((track_call_iff _ _ _).mp here).1

/-- A thread that has returned holds nothing. -/
theorem Disciplined.ended (disciplined : Disciplined pool removing) {value : Unit}
    (idle : pool.threads tid = .done value) :
    pool.shared.hold (removing tid) tid = Hold.idle := by
  have orderly := disciplined.orderly tid
  rw [idle] at orderly
  have ended := (Hold.orderly_done_iff value).mp orderly
  exact ended

/-- The order in which the waits lead to each other. -/
def ThreadOp.rank : ThreadOp → Nat
  | .kernel (.procDrain _) => 1
  | .lock .driver => 2
  | .lock .rescan => 3
  | .procDrainRoot => 4
  | _ => 0

def Threads.rank (pool : Threads) (tid : Nat) : Nat :=
  ((pool.threads tid).nextOp.map ThreadOp.rank).getD 0

theorem Hold.Permits.rank_driver {h : Hold} (permits : h.Permits op) (driver : h.driver = true) :
    op.rank ≤ 1 := by
  cases op with
  | lock name => cases name <;> simp_all [Hold.Permits]
  | procDrainRoot => simp_all [Hold.Permits]
  | kernel op => cases op <;> simp [ThreadOp.rank]
  | _ => simp [ThreadOp.rank]

theorem Hold.Permits.rank_rescan {h : Hold} (permits : h.Permits op) (rescan : h.rescan = true) :
    op.rank ≤ 2 := by
  cases op with
  | lock name => cases name <;> simp_all [Hold.Permits, ThreadOp.rank]
  | procDrainRoot => simp_all [Hold.Permits]
  | kernel op => cases op <;> simp [ThreadOp.rank]
  | _ => simp [ThreadOp.rank]

theorem Hold.Permits.rank_inside {h : Hold} (permits : h.Permits op) (inside : h.inside = true) :
    op.rank ≤ 3 := by
  cases op with
  | lock name => cases name <;> simp [ThreadOp.rank]
  | procDrainRoot => simp_all [Hold.Permits]
  | kernel op => cases op <;> simp [ThreadOp.rank]
  | _ => simp [ThreadOp.rank]

theorem rank_of_calls (past : (pool.threads tid).Calls fun op => ¬ op.MayWait) :
    pool.rank tid = 0 := by
  unfold Threads.rank
  cases turn : pool.threads tid with
  | done value => rfl
  | call op next =>
      rw [turn] at past
      have never : ¬ op.MayWait := past.1
      cases op with
      | lock name => exact absurd trivial never
      | procDrainRoot => exact absurd trivial never
      | kernel op =>
          cases op with
          | procDrain name => exact absurd trivial never
          | _ => rfl
      | _ => rfl

/-- Whatever a permitted next operation of the thread ranks at most, the thread does. -/
theorem Disciplined.rank_le (disciplined : Disciplined pool removing) {bound : Nat}
    (below : ∀ op, (pool.shared.hold (removing tid) tid).Permits op → op.rank ≤ bound) :
    pool.rank tid ≤ bound := by
  unfold Threads.rank
  cases turn : pool.threads tid with
  | done value => simp [nextOp]
  | call op next => simpa [nextOp] using below op (disciplined.allows turn).2

/-- A wait leads to a thread that waits for something of a lower rank, or not at all. -/
theorem Disciplined.descends (disciplined : Disciplined pool removing)
    (waits : pool.Waits tid other) : pool.rank other < pool.rank tid := by
  unfold Threads.Waits at waits
  cases turn : pool.threads tid with
  | done value =>
      rw [turn] at waits
      exact waits.elim
  | call op next =>
      have allows := disciplined.allows turn
      have rank : pool.rank tid = op.rank := by simp [Threads.rank, turn, nextOp]
      rw [turn] at waits
      rw [rank]
      cases op with
      | lock name =>
          have owner : pool.shared.owner name = some other := waits
          cases name with
          | driver =>
              have below : pool.rank other ≤ 1 := disciplined.rank_le fun op permits =>
                permits.rank_driver (decide_eq_true owner)
              exact Nat.lt_succ_of_le below
          | rescan =>
              have below : pool.rank other ≤ 2 := disciplined.rank_le fun op permits =>
                permits.rank_rescan (decide_eq_true owner)
              exact Nat.lt_succ_of_le below
      | procDrainRoot =>
          have below : pool.rank other ≤ 3 := disciplined.rank_le fun op permits =>
            permits.rank_inside waits
          exact Nat.lt_succ_of_le below
      | kernel op =>
          cases op with
          | procDrain name =>
              cases name with
              | none => exact waits.elim
              | some name =>
                  obtain ⟨node, inside⟩ := waits
                  have removal := disciplined.removals tid name allows.1
                  rw [rank_of_calls (removal.past other node inside)]
                  exact Nat.zero_lt_one
          | _ => exact waits.elim
      | _ => exact waits.elim

theorem Disciplined.not_deadlocked (disciplined : Disciplined pool removing) :
    ¬ Pool.Deadlocked pool.Waits :=
  Pool.not_deadlocked_of_rank pool.rank fun _ _ => disciplined.descends

/-! One step -/

/-- Entries of a directory appear only under the driver lock. -/
theorem nodes_removed {name : Nat} (unlinked : ∀ node, s.nodes name node = false)
    {removing : Option Nat} (permits : (s.hold removing tid).Permits op)
    (others : s.owner .driver ≠ some tid) (answered : threadAnswer tid s op reply s') :
    ∀ node, s'.nodes name node = false := by
  cases op with
  | lock taken => rw [answered.2]; exact unlinked
  | table => rw [answered.2]; exact unlinked
  | peek index => rw [answered.2]; exact unlinked
  | procDrainRoot => rw [answered.2]; exact unlinked
  | procEnter index node =>
      rw [answered.2]
      cases reply with
      | false => exact unlinked
      | true => exact unlinked
  | procUnlinkRoot =>
      have moved : s' = { s with nodes := fun _ _ => false } := answered
      rw [moved]
      exact fun node => rfl
  | kernel op =>
      cases op with
      | procCreateData created node => exact absurd (of_decide_eq_true permits) others
      | procUnlink gone => exact absurd (of_decide_eq_true permits) others
      | procDrain drained =>
          cases drained with
          | none =>
              have same : s' = s := answered
              rw [same]
              exact unlinked
          | some drained => rw [answered.2]; exact unlinked
      | _ =>
          have same : s' = s := answered
          rw [same]
          exact unlinked
  | _ =>
      simp only [threadAnswer] at answered
      rw [answered]
      exact unlinked

/-- Nobody enters a directory that has been unlinked. -/
theorem inside_removed {name : Nat} {node : ProcNode}
    (unlinked : ∀ node, s.nodes name node = false) (answered : threadAnswer tid s op reply s')
    (inside : s'.inside other = some (name, node)) : s.inside other = some (name, node) := by
  rw [(threadAnswer_moves answered).2] at inside
  cases op with
  | procEnter index entry =>
      cases reply with
      | false => exact inside
      | true =>
          have listed : true = s.nodes index entry := answered.1
          by_cases same : other = tid
          · subst same
            simp only [ThreadOp.insideAfter, if_true, Function.update_self] at inside
            cases inside
            rw [unlinked] at listed
            cases listed
          · simpa [ThreadOp.insideAfter, Function.update_of_ne same] using inside
  | procLeave =>
      by_cases same : other = tid
      · subst same
        simp [ThreadOp.insideAfter] at inside
      · simpa [ThreadOp.insideAfter, Function.update_of_ne same] using inside
  | _ => exact inside

/-- What a thread can still call shrinks with its steps. -/
theorem calls_resume {allowed : ThreadOp → Prop} {next : op.Reply → Thread Unit}
    (turn : pool.threads tid = .call op next) (calls : (pool.threads other).Calls allowed) :
    ((pool.resume tid (next reply) s').threads other).Calls allowed := by
  by_cases same : other = tid
  · subst same
    rw [turn] at calls
    rw [Pool.resume_same]
    exact calls.2 reply
  · rw [Pool.resume_other same]
    exact calls

/-- A removal goes on beside any step of another thread. -/
theorem Removal.beside {remover name : Nat} {held : Option Nat} {next : op.Reply → Thread Unit}
    (removal : Removal pool remover name) (apart : remover ≠ tid)
    (turn : pool.threads tid = .call op next) (permits : (pool.shared.hold held tid).Permits op)
    (answered : threadAnswer tid pool.shared op reply s') :
    Removal (pool.resume tid (next reply) s') remover name where
  owns := by
    have same : (s'.hold none remover).driver = (pool.shared.hold none remover).driver :=
      congrArg Hold.driver (hold_other apart permits answered)
    simpa [LockWorld.hold, removal.owns] using same
  unlinked := by
    refine nodes_removed removal.unlinked permits ?_ answered
    rw [removal.owns]
    exact fun same => apart (Option.some.inj same)
  past other node inside := by
    have before := inside_removed removal.unlinked answered inside
    exact calls_resume turn (removal.past other node before)

/-- Only `remove_proc_subtree` of a directory starts its removal. -/
theorem Hold.Allows.removing_after {h : Hold} {name : Nat} (allows : h.Allows op)
    (started : (h.after op reply).removing = some name) :
    op = .kernel (.procUnlink (some name)) := by
  have before := allows.1
  cases op with
  | kernel op =>
      cases op with
      | procUnlink gone =>
          have same : gone = some name := started
          rw [same]
      | procDrain drained => cases started
      | _ => cases before.symm.trans started
  | lock taken => cases taken <;> cases before.symm.trans started
  | unlock given => cases given <;> cases before.symm.trans started
  | _ => cases before.symm.trans started

/-- The removal that a step starts, given that the handlers inside are past their locks. -/
theorem Removal.starts {name : Nat} {held : Option Nat} {next : Unit → Thread Unit}
    (turn : pool.threads tid = .call (.kernel (.procUnlink (some name))) next)
    (permits : (pool.shared.hold held tid).Permits (.kernel (.procUnlink (some name))))
    (met : HandlersPast pool tid (.kernel (.procUnlink (some name))))
    (answered : threadAnswer tid pool.shared (.kernel (.procUnlink (some name))) () s') :
    Removal (pool.resume tid (next ()) s') tid name := by
  have moved : s' = { pool.shared with
      nodes := Function.update pool.shared.nodes name fun _ => false } := answered
  refine ⟨?_, ?_, ?_⟩
  · rw [Pool.resume_shared, moved]
    exact of_decide_eq_true permits
  · intro node
    rw [Pool.resume_shared, moved]
    simp only [Function.update_self]
  · intro other node inside
    rw [Pool.resume_shared, moved] at inside
    exact calls_resume turn (met other node inside)

/-- The step lemma for an operation of a thread. -/
theorem Disciplined.call (disciplined : Disciplined pool removing) {next : op.Reply → Thread Unit}
    (turn : pool.threads tid = .call op next) (met : HandlersPast pool tid op)
    (answered : threadAnswer tid pool.shared op reply s') :
    Disciplined (pool.resume tid (next reply) s')
      (Function.update removing tid
        ((pool.shared.hold (removing tid) tid).after op reply).removing) := by
  have allows := disciplined.allows turn
  refine ⟨fun other => ?_, fun remover name started => ?_⟩
  · by_cases same : other = tid
    · subst same
      have here := disciplined.orderly other
      rw [turn] at here
      rw [Pool.resume_same, Pool.resume_shared, Function.update_self, hold_self allows.2 answered]
      exact ((track_call_iff _ _ _).mp here).2 reply
    · rw [Pool.resume_other same, Pool.resume_shared, Function.update_of_ne same,
        hold_other same allows.2 answered]
      exact disciplined.orderly other
  · by_cases same : remover = tid
    · subst same
      rw [Function.update_self] at started
      have unlinks := allows.removing_after started
      subst unlinks
      exact Removal.starts turn allows.2 met answered
    · rw [Function.update_of_ne same] at started
      exact (disciplined.removals remover name started).beside same turn allows.2 answered

/-- The step lemma for a thread that starts. -/
theorem Disciplined.start (disciplined : Disciplined pool removing) {t : Timing} {value : Unit}
    {program : Thread Unit} (idle : pool.threads tid = .done value)
    (starts : DriverThread t program) :
    Disciplined (pool.resume tid program pool.shared) removing := by
  have here := disciplined.ended idle
  refine ⟨fun other => ?_, fun remover name started => ?_⟩
  · by_cases same : other = tid
    · subst same
      rw [Pool.resume_same, Pool.resume_shared, here]
      exact Hold.driverThread_balanced t starts
    · rw [Pool.resume_other same]
      exact disciplined.orderly other
  · obtain ⟨owns, unlinked, past⟩ := disciplined.removals remover name started
    refine ⟨owns, unlinked, fun other node inside => ?_⟩
    by_cases same : other = tid
    · subst same
      have outside : (pool.shared.inside other).isSome = false := congrArg Hold.inside here
      rw [Pool.resume_shared] at inside
      rw [inside] at outside
      cases outside
    · rw [Pool.resume_other same]
      exact past other node inside

/-! Every run -/

variable {t : Timing} {table : Platform} {nodes : Nat → ProcNode → Bool}

theorem restingThreads_disciplined :
    Disciplined (restingThreads table nodes) fun _ => none where
  orderly _ := Hold.orderly_done () rfl
  removals _ _ impossible := nomatch impossible

/-- The run lemma. -/
theorem ThreadRun.disciplined (run : ThreadRun t HandlersPast table nodes pool) :
    ∃ removing, Disciplined pool removing := by
  refine run.invariant (fun pool => ∃ removing, Disciplined pool removing)
    ⟨_, restingThreads_disciplined⟩ ?_
  intro pool pool' here step
  obtain ⟨removing, disciplined⟩ := here
  cases step with
  | start idle allowed => exact ⟨_, disciplined.start idle allowed⟩
  | call turn met answered => exact ⟨_, disciplined.call turn met answered⟩
  | interfere moved => exact absurd moved id

/-- No set of threads waits for itself in a run where handlers are past their locks whenever the
directory they are in is removed. -/
theorem proc_deadlock_free (t : Timing) (table : Platform) (nodes : Nat → ProcNode → Bool)
    (pool : Threads) (run : ThreadRun t HandlersPast table nodes pool) :
    ¬ Pool.Deadlocked pool.Waits := by
  obtain ⟨removing, disciplined⟩ := run.disciplined
  exact disciplined.not_deadlocked

theorem drained_some {name : Nat} (drains : Hold.drained op = some name) :
    op = .kernel (.procDrain (some name)) := by
  cases op with
  | kernel op =>
      cases op with
      | procDrain target =>
          have same : target = some name := drains
          rw [same]
      | _ => cases drains
  | _ => cases drains

/-- Once a directory is unlinked, its removal waits for everyone inside. -/
theorem Disciplined.waits_inside (disciplined : Disciplined pool removing) {name : Nat}
    {node : ProcNode} (unlinked : removing tid = some name)
    (inside : pool.shared.inside other = some (name, node)) : pool.Waits tid other := by
  have drains : (pool.threads tid).nextOp = some (.kernel (.procDrain (some name))) := by
    cases turn : pool.threads tid with
    | done value =>
        have ended := congrArg Hold.removing (disciplined.ended turn)
        cases unlinked.symm.trans ended
    | call op next =>
        have next := (disciplined.allows turn).1
        exact congrArg some (drained_some (next.symm.trans unlinked))
  unfold Threads.Waits
  rw [drains]
  exact ⟨node, inside⟩

/-- The removal of a directory ends in a deadlock when a handler inside waits for the driver lock,
or is the one that removes it. -/
theorem Disciplined.unlink_deadlocks (disciplined : Disciplined pool removing) {name : Nat}
    {node : ProcNode} (unlinked : removing tid = some name)
    (inside : pool.shared.inside other = some (name, node))
    (stuck : other = tid ∨ (pool.threads other).nextOp = some (.lock .driver)) :
    Pool.Deadlocked pool.Waits := by
  have waits := disciplined.waits_inside unlinked inside
  rcases stuck with same | locks
  · rw [same] at waits
    exact Pool.deadlocked_self waits
  · have back : pool.Waits other tid := by
      unfold Threads.Waits
      rw [locks]
      exact (disciplined.removals tid name unlinked).owns
    exact Pool.deadlocked_pair waits back

/-! Threads against a kernel in which nothing fails -/

/-- The text "1" is in user memory. No wait of `remove_proc_subtree` ends here. -/
def kernelReply (s : LockWorld) : (op : Op) → Option (op.Reply × LockWorld)
  | .procCreateData name node => some (true,
      { s with nodes := Function.update s.nodes name (Function.update (s.nodes name) node true) })
  | .procUnlink (some name) =>
      some ((), { s with nodes := Function.update s.nodes name fun _ => false })
  | .procUnlink none => none
  | .procDrain _ => none
  | .copyFromUser _ length => some (some (Vector.replicate length 49), s)
  | op => (promptReply op).map fun reply => (reply, s)

def threadReply (tid : Nat) (s : LockWorld) : (op : ThreadOp) → Option (op.Reply × LockWorld)
  | .lock name =>
      if s.owner name = none then
        some ((), { s with owner := Function.update s.owner name (some tid) })
      else none
  | .unlock name => some ((), { s with owner := Function.update s.owner name none })
  | .table => some (s.table, s)
  | .setTable table =>
      some ((), { s with table := { table with procRoot := s.table.procRoot } })
  | .peek index => some (s.table.devs index, s)
  | .clearProcRoot => some ((), { s with table := { s.table with procRoot := false } })
  | .kernel op => kernelReply s op
  | .isAdded _ => some (true, s)
  | .procEnter index node =>
      some (s.nodes index node, if s.nodes index node then
        { s with inside := Function.update s.inside tid (some (index.val, node)) } else s)
  | .procLeave => some ((), { s with inside := Function.update s.inside tid none })
  | .procUnlinkRoot => some ((), { s with nodes := fun _ _ => false })
  | .procDrainRoot => none

theorem kernelReply_answer {op : Op} {reply : op.Reply}
    (replied : kernelReply s op = some (reply, s')) : kernelAnswer s op reply s' := by
  cases op with
  | procCreateData name node => cases replied; rfl
  | procUnlink name =>
      cases name with
      | none => cases replied
      | some name => cases replied; rfl
  | procDrain name => cases replied
  | copyFromUser src length => cases replied; rfl
  | _ =>
      have prompt : (promptReply _).map (fun reply => (reply, s)) = some (reply, s') := replied
      obtain ⟨reply', -, same⟩ := Option.map_eq_some_iff.mp prompt
      cases same
      rfl

theorem threadReply_answer (replied : threadReply tid s op = some (reply, s')) :
    threadAnswer tid s op reply s' := by
  cases op with
  | lock name =>
      obtain ⟨free, same⟩ := Option.ite_none_right_eq_some.mp replied
      cases same
      exact ⟨free, rfl⟩
  | table => cases replied; exact ⟨rfl, rfl⟩
  | peek index => cases replied; exact ⟨fun _ => rfl, rfl⟩
  | kernel op => exact kernelReply_answer replied
  | procEnter index node => cases replied; exact ⟨rfl, rfl⟩
  | procDrainRoot => cases replied
  | _ => cases replied; rfl

/-- The steps that `admits` lets through. -/
def threadDriver (admits : ThreadOp → Bool) :
    Pool.Driver Nat ThreadOp ThreadOp.Reply LockWorld Empty where
  answer tid s op := if admits op then threadReply tid s op else none
  interfere move _ := nomatch move

theorem threadDriver_sound {admits : ThreadOp → Bool} {cond : Threads → Nat → ThreadOp → Prop}
    (met : ∀ pool tid op, admits op = true → cond pool tid op) :
    (threadDriver admits).Sound threadSystem cond where
  answer tid s op reply s' replied := by
    obtain ⟨-, replied⟩ := Option.ite_none_right_eq_some.mp replied
    exact threadReply_answer replied
  interfere move := nomatch move
  met pool tid op replied := by
    apply met
    by_contra refused
    simp [threadDriver, refused] at replied

abbrev ThreadTurn := Pool.Turn Nat ThreadOp ThreadOp.Reply Unit Empty

/-- Where the turns lead from an empty table. -/
def threadsAfter (admits : ThreadOp → Bool) (turns : List ThreadTurn) : Threads :=
  let start := restingThreads (platformInit true) fun _ _ => false
  (turns.foldlM (threadDriver admits).step start).getD start

theorem threadsAfter_run {admits : ThreadOp → Bool} {cond : Threads → Nat → ThreadOp → Prop}
    (met : ∀ pool tid op, admits op = true → cond pool tid op) {turns : List ThreadTurn}
    (starts : ∀ turn ∈ turns, turn.Starts (DriverThread ⟨1000, 1⟩))
    (ran : (turns.foldlM (threadDriver admits).step
      (restingThreads (platformInit true) fun _ _ => false)).isSome = true) :
    ThreadRun ⟨1000, 1⟩ cond (platformInit true) (fun _ _ => false)
      (threadsAfter admits turns) := by
  obtain ⟨pool, found⟩ := Option.isSome_iff_exists.mp ran
  simp only [threadsAfter, found, Option.getD_some]
  exact (threadDriver_sound met).reach turns starts .init found

/-! Three runs around one card -/

/-- The thread starts, and takes so many steps. -/
def threadTurns (tid : Nat) (program : Thread Unit) (steps : Nat) : List ThreadTurn :=
  .start tid program :: List.replicate steps (.take tid)

theorem threadTurns_starts {program : Thread Unit} (thread : DriverThread ⟨1000, 1⟩ program)
    (tid steps : Nat) :
    ∀ turn ∈ threadTurns tid program steps, turn.Starts (DriverThread ⟨1000, 1⟩) := by
  intro turn member
  rcases List.mem_cons.mp member with rfl | later
  · exact thread
  · rw [List.eq_of_mem_replicate later]
    trivial

/-- A virtio card on bus 1 is found. -/
def addTurns : List ThreadTurn :=
  threadTurns 0 (hotplug .addDevice [cardAt 1 1 ambaPciVirtioDeviceId]) 13

/-- Its `dev_info` is read, and it is unplugged. -/
def readTurns (read unplug : Nat) : List ThreadTurn :=
  addTurns ++ threadTurns 1 (procCall 0 .devInfo (devInfoRead 0)) read ++
    threadTurns 2 (hotplug .delDevice [cardAt 1 1 ambaPciVirtioDeviceId]) unplug

/-- A "1" is written to its reboot node. -/
def rebootTurnsLocked : List ThreadTurn :=
  addTurns ++ threadTurns 1
    (procCall 0 .reboot ((pcieProcRebootWrite 0 0 1 0).interp (callThread ⟨1000, 1⟩))) 15

theorem readTurns_starts (read unplug : Nat) :
    ∀ turn ∈ readTurns read unplug, turn.Starts (DriverThread ⟨1000, 1⟩) := by
  intro turn member
  simp only [readTurns, addTurns, List.mem_append] at member
  rcases member with (found | reads) | unplugged
  · exact threadTurns_starts (.hotplug _ _) 0 13 turn found
  · exact threadTurns_starts (.devInfoRead 0) 1 read turn reads
  · exact threadTurns_starts (.hotplug _ _) 2 unplug turn unplugged

def ThreadOp.removes : ThreadOp → Bool
  | .kernel (.procUnlink _) => true
  | _ => false

/-- The reader has the driver lock, and the removal of its card waits for it. -/
theorem proc_deadlock_free_read :
    ¬ Pool.Deadlocked (threadsAfter (fun op => !op.removes) (readTurns 3 1)).Waits := by
  have met : ∀ pool tid op, (!ThreadOp.removes op) = true → HandlersPast pool tid op := by
    intro pool tid op admitted
    cases op with
    | kernel op =>
        cases op with
        | procUnlink name => cases admitted
        | _ => trivial
    | _ => trivial
  exact proc_deadlock_free ⟨1000, 1⟩ (platformInit true) (fun _ _ => false) _
    (threadsAfter_run met (readTurns_starts 3 1) (by decide +kernel))

/-- A thread at the wait of `remove_proc_subtree` waits for whoever is inside. -/
theorem waits_drain (name : Nat) (node : ProcNode)
    (drains : (pool.threads tid).nextOp.bind Hold.drained = some name)
    (inside : pool.shared.inside other = some (name, node)) : pool.Waits tid other := by
  obtain ⟨op, next, target⟩ := Option.bind_eq_some_iff.mp drains
  rw [drained_some target] at next
  unfold Threads.Waits
  rw [next]
  exact ⟨node, inside⟩

def ThreadOp.lockName : ThreadOp → Option LockName
  | .lock name => some name
  | _ => none

theorem waits_lock (name : LockName)
    (locks : (pool.threads tid).nextOp.bind ThreadOp.lockName = some name)
    (owned : pool.shared.owner name = some other) : pool.Waits tid other := by
  obtain ⟨op, next, target⟩ := Option.bind_eq_some_iff.mp locks
  unfold Threads.Waits
  rw [next]
  cases op with
  | lock taken =>
      cases target
      exact owned
  | _ => cases target

/-- The removal holds the driver lock and waits for the reader, which waits for the lock. -/
theorem dev_info_read_deadlocked : ∃ pool : Threads,
    ThreadRun ⟨1000, 1⟩ (fun _ _ _ => True) (platformInit true) (fun _ _ => false) pool ∧
      Pool.Deadlocked pool.Waits := by
  refine ⟨threadsAfter (fun _ => true) (readTurns 2 5),
    threadsAfter_run (fun _ _ _ _ => trivial) (readTurns_starts 2 5) (by decide +kernel), ?_⟩
  have locks : (threadsAfter (fun _ => true) (readTurns 2 5)).Waits 1 2 :=
    waits_lock .driver (by decide +kernel) (by decide +kernel)
  have drains : (threadsAfter (fun _ => true) (readTurns 2 5)).Waits 2 1 :=
    waits_drain 0 .devInfo (by decide +kernel) (by decide +kernel)
  exact Pool.deadlocked_pair locks drains

/-- The reboot writer waits for itself to leave the reboot node. -/
theorem proc_deadlock_self : ¬ ∀ t table nodes pool,
    ThreadRun t (fun _ _ _ => True) table nodes pool → ¬ Pool.Deadlocked pool.Waits := by
  intro claim
  have starts : ∀ turn ∈ rebootTurnsLocked, turn.Starts (DriverThread ⟨1000, 1⟩) := by
    intro turn member
    rcases List.mem_append.mp member with found | writes
    · exact threadTurns_starts (.hotplug _ _) 0 13 turn found
    · exact threadTurns_starts (.rebootWrite 0 0 1 0) 1 15 turn writes
  have run : ThreadRun ⟨1000, 1⟩ (fun _ _ _ => True) (platformInit true) (fun _ _ => false)
      (threadsAfter (fun _ => true) rebootTurnsLocked) :=
    threadsAfter_run (fun _ _ _ _ => trivial) starts (by decide +kernel)
  have itself : (threadsAfter (fun _ => true) rebootTurnsLocked).Waits 1 1 :=
    waits_drain 0 .reboot (by decide +kernel) (by decide +kernel)
  exact claim _ _ _ _ run (Pool.deadlocked_self itself)

end AmbaPci

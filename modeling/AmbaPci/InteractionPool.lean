import Mathlib.Logic.Function.Basic
import AmbaPci.InteractionMachine

set_option autoImplicit false

/- Threads that run programs over one shared state, and what they wait for. -/
namespace Interaction

variable {Tid Op : Type} {Reply : Op → Type} {σ α : Type}

/-- Who answers an operation matters here: locks have owners. -/
structure System (Tid Op : Type) (Reply : Op → Type) (σ : Type) where
  answer : Tid → σ → (op : Op) → Reply op → σ → Prop
  interfere : σ → σ → Prop

/-- What every thread has left to do, and the state they share. A thread that has returned can
start anew. -/
structure Pool (Tid Op : Type) (Reply : Op → Type) (σ α : Type) where
  threads : Tid → Prog Op Reply α
  shared : σ

namespace Pool

/-! Waiting -/

/-- Every thread of some nonempty set waits for a thread of the set. -/
def Deadlocked (waits : Tid → Tid → Prop) : Prop :=
  ∃ stuck : Set Tid, stuck.Nonempty ∧ ∀ tid ∈ stuck, ∃ other ∈ stuck, waits tid other

/-- A thread that waits for itself. -/
theorem deadlocked_self {waits : Tid → Tid → Prop} {tid : Tid} (itself : waits tid tid) :
    Deadlocked waits :=
  ⟨{tid}, ⟨tid, rfl⟩, fun _ here => ⟨tid, rfl, here ▸ itself⟩⟩

/-- Two threads that wait for each other. -/
theorem deadlocked_pair {waits : Tid → Tid → Prop} {tid other : Tid} (there : waits tid other)
    (back : waits other tid) : Deadlocked waits := by
  refine ⟨{tid, other}, ⟨tid, Or.inl rfl⟩, fun member here => ?_⟩
  rcases here with same | same
  · exact ⟨other, Or.inr rfl, same ▸ there⟩
  · exact ⟨tid, Or.inl rfl, same ▸ back⟩

/-- Waiting that always leads to a lower rank ends. -/
theorem not_deadlocked_of_rank {waits : Tid → Tid → Prop} (rank : Tid → Nat)
    (descends : ∀ tid other, waits tid other → rank other < rank tid) : ¬ Deadlocked waits := by
  intro deadlocked
  obtain ⟨stuck, ⟨first, inside⟩, closed⟩ := deadlocked
  have none : ∀ bound, ∀ tid ∈ stuck, rank tid ≠ bound := by
    intro bound
    induction bound using Nat.strongRecOn with
    | ind bound ih =>
        intro tid member here
        obtain ⟨other, member', waiting⟩ := closed tid member
        have below := descends tid other waiting
        exact ih (rank other) (by omega) other member' rfl
  exact none (rank first) first inside rfl

/-! Moments -/

variable {pools : Nat → Pool Tid Op Reply σ α} {tid : Tid} {n : Nat}

/-- The call of a thread that is under way at moment `n` was under way already. -/
def InCall (pools : Nat → Pool Tid Op Reply σ α) (tid : Tid) (i n : Nat) : Prop :=
  i ≤ n ∧ ∀ j, i ≤ j → j ≤ n → ∀ value, (pools j).threads tid ≠ .done value

/-- The last moment at which a thread had returned, if it had at first. -/
theorem exists_idle (idle : ∃ value, (pools 0).threads tid = .done value) (n : Nat) :
    ∃ m, m ≤ n ∧ (∃ value, (pools m).threads tid = .done value) ∧
      ∀ i, m < i → i ≤ n → InCall pools tid i n := by
  induction n with
  | zero => exact ⟨0, Nat.le_refl 0, idle, fun i later first => by omega⟩
  | succ n ih =>
      by_cases returned : ∃ value, (pools (n + 1)).threads tid = .done value
      · exact ⟨n + 1, Nat.le_refl _, returned, fun i later last => by omega⟩
      · obtain ⟨m, before, here, after⟩ := ih
        refine ⟨m, by omega, here, fun i later last => ⟨last, fun j above below value there => ?_⟩⟩
        by_cases now : j = n + 1
        · rw [now] at there
          exact returned ⟨value, there⟩
        · exact (after i later (by omega)).2 j above (by omega) value there

/-! Steps and runs -/

variable [DecidableEq Tid]

/-- The thread goes on with a program in a new shared state. -/
def resume (pool : Pool Tid Op Reply σ α) (tid : Tid) (program : Prog Op Reply α) (s : σ) :
    Pool Tid Op Reply σ α where
  threads := Function.update pool.threads tid program
  shared := s

variable {pool : Pool Tid Op Reply σ α} {other : Tid} {program : Prog Op Reply α} {s : σ}

@[simp] theorem resume_shared : (pool.resume tid program s).shared = s := rfl

@[simp] theorem resume_same : (pool.resume tid program s).threads tid = program :=
  Function.update_self ..

theorem resume_other (apart : other ≠ tid) :
    (pool.resume tid program s).threads other = pool.threads other :=
  Function.update_of_ne apart ..

variable (S : System Tid Op Reply σ) (programs : Prog Op Reply α → Prop)
  (cond : Pool Tid Op Reply σ α → Tid → Op → Prop)

/-- One step: a thread starts a program, takes its next operation, which has to meet a condition on
the pool before it, or the surroundings move. -/
inductive Step (pool : Pool Tid Op Reply σ α) : Pool Tid Op Reply σ α → Prop
  | start {tid : Tid} {program : Prog Op Reply α} {value : α}
      (idle : pool.threads tid = .done value) (allowed : programs program) :
      Step pool (pool.resume tid program pool.shared)
  | call {tid : Tid} {op : Op} {next : Reply op → Prog Op Reply α} {reply : Reply op} {s : σ}
      (turn : pool.threads tid = .call op next) (met : cond pool tid op)
      (answered : S.answer tid pool.shared op reply s) : Step pool (pool.resume tid (next reply) s)
  | interfere {s : σ} (moved : S.interfere pool.shared s) :
      Step pool { pool with shared := s }

/-- The pools that a run from `initial` reaches. -/
inductive Reach (initial : Pool Tid Op Reply σ α) : Pool Tid Op Reply σ α → Prop
  | init : Reach initial initial
  | step {pool pool' : Pool Tid Op Reply σ α} (before : Reach initial pool)
      (step : Step S programs cond pool pool') : Reach initial pool'

variable {S programs cond} {initial : Pool Tid Op Reply σ α}

theorem Reach.invariant (inv : Pool Tid Op Reply σ α → Prop) (here : inv initial)
    (kept : ∀ pool pool', inv pool → Step S programs cond pool pool' → inv pool')
    (reach : Reach S programs cond initial pool) : inv pool := by
  induction reach with
  | init => exact here
  | step before step ih => exact kept _ _ ih step

/-- A run from moment to moment. -/
structure History (S : System Tid Op Reply σ) (programs : Prog Op Reply α → Prop)
    (cond : Pool Tid Op Reply σ α → Tid → Op → Prop) (initial : Pool Tid Op Reply σ α)
    (pools : Nat → Pool Tid Op Reply σ α) (n : Nat) : Prop where
  first : pools 0 = initial
  step : ∀ i, i < n → Step S programs cond (pools i) (pools (i + 1))

theorem History.reach (history : History S programs cond initial pools n) {i : Nat}
    (within : i ≤ n) : Reach S programs cond initial (pools i) := by
  induction i with
  | zero =>
      rw [history.first]
      exact .init
  | succ i ih => exact (ih (by omega)).step (history.step i within)

theorem Reach.history (reach : Reach S programs cond initial pool) :
    ∃ pools n, History S programs cond initial pools n ∧ pools n = pool := by
  induction reach with
  | init => exact ⟨fun _ => initial, 0, ⟨rfl, fun i impossible => by omega⟩, rfl⟩
  | @step before after _ step ih =>
      obtain ⟨pools, n, history, rfl⟩ := ih
      refine ⟨fun i => if i ≤ n then pools i else after, n + 1, ⟨?_, fun i within => ?_⟩, ?_⟩
      · rw [if_pos (Nat.zero_le n)]
        exact history.first
      · by_cases earlier : i < n
        · rw [if_pos (Nat.le_of_lt earlier), if_pos (Nat.succ_le_of_lt earlier)]
          exact history.step i earlier
        · have last : i = n := by omega
          rw [last, if_pos (Nat.le_refl n), if_neg (by omega)]
          exact step
      · dsimp only
        rw [if_neg (by omega)]

/-- One thread's view: the other threads are part of its surroundings. -/
def machine (S : System Tid Op Reply σ) (tid : Tid) : Machine Op Reply σ where
  answer := S.answer tid
  interfere s s' := S.interfere s s' ∨
    ∃ other op reply, other ≠ tid ∧ S.answer other s op reply s'

/-- One thread while the others rest. -/
def solo (S : System Tid Op Reply σ) (tid : Tid) : Machine Op Reply σ where
  answer := S.answer tid
  interfere := S.interfere

theorem resume_resume {program' : Prog Op Reply α} {s' : σ} :
    (pool.resume tid program s).resume tid program' s' = pool.resume tid program' s' := by
  simp only [resume, Function.update_idem]

theorem Reach.solo (free : ∀ pool tid op, cond pool tid op)
    (reach : Reach S programs cond initial pool)
    {program' : Prog Op Reply α} {s' : σ}
    (run : (solo S tid).Steps (pool.threads tid, pool.shared) (program', s')) :
    Reach S programs cond initial (pool.resume tid program' s') := by
  have general : ∀ stop : Prog Op Reply α × σ,
      (Pool.solo S tid).Steps (pool.threads tid, pool.shared) stop →
        Reach S programs cond initial (pool.resume tid stop.1 stop.2) := by
    intro stop path
    induction path with
    | refl =>
        have same : pool.resume tid (pool.threads tid) pool.shared = pool := by
          simp only [resume, Function.update_eq_self]
        rw [same]
        exact reach
    | tail _ last ih =>
        cases last with
        | call answered =>
            have next := ih.step (.call resume_same (free _ _ _) answered)
            rw [resume_resume] at next
            exact next
        | interfere moved => exact ih.step (.interfere moved)
  exact general _ run

/-- What a thread's programs ensure from any state, beside any steps of the others, every thread
ensures at every point of every run. -/
theorem Reach.wp {guard : Tid → σ → Op → Prop} {post : Tid → α → σ → Prop}
    (first : ∀ tid, (machine S tid).wp (guard tid) (post tid) (initial.threads tid) initial.shared)
    (ensures : ∀ tid program s, programs program →
      (machine S tid).wp (guard tid) (post tid) program s)
    (reach : Reach S programs cond initial pool) (tid : Tid) :
    (machine S tid).wp (guard tid) (post tid) (pool.threads tid) pool.shared := by
  refine reach.invariant (fun pool => ∀ tid,
    (machine S tid).wp (guard tid) (post tid) (pool.threads tid) pool.shared) first ?_ tid
  intro pool pool' holds step tid
  cases step with
  | @start starting program value idle allowed =>
      by_cases same : tid = starting
      · subst same
        rw [resume_same]
        exact ensures tid program _ allowed
      · rw [resume_other same]
        exact holds tid
  | @call calling op next reply s turn met answered =>
      by_cases same : tid = calling
      · subst same
        have here := holds tid
        rw [turn] at here
        rw [resume_same]
        exact (here _ .refl).2 reply s answered
      · rw [resume_other same]
        exact Machine.wp_drift (holds tid)
          (.single (Or.inr ⟨calling, op, reply, Ne.symm same, answered⟩))
  | interfere moved => exact Machine.wp_drift (holds tid) (.single (Or.inl moved))

/-- The same within what the runs are known to do: `N` says how they answer a thread and how they
move the state beside it. -/
theorem Reach.wp_within {N : Machine Op Reply σ} {guard : σ → Op → Prop} {post : α → σ → Prop}
    (answers : ∀ (pool : Pool Tid Op Reply σ α) tid op next reply s,
      Reach S programs cond initial pool → pool.threads tid = .call op next →
        S.answer tid pool.shared op reply s →
        N.answer pool.shared op reply s ∧ N.interfere pool.shared s)
    (moves : ∀ pool s, Reach S programs cond initial pool → S.interfere pool.shared s →
      N.interfere pool.shared s)
    (first : ∀ tid, N.wp guard post (initial.threads tid) initial.shared)
    (ensures : ∀ pool program, Reach S programs cond initial pool → programs program →
      N.wp guard post program pool.shared)
    (reach : Reach S programs cond initial pool) (tid : Tid) :
    N.wp guard post (pool.threads tid) pool.shared := by
  induction reach generalizing tid with
  | init => exact first tid
  | step before step ih =>
      cases step with
      | @start starting program value idle allowed =>
          have started := ensures _ program before allowed
          by_cases same : tid = starting
          · subst same
            rw [resume_same]
            exact started
          · rw [resume_other same]
            exact ih tid
      | @call calling op next reply s turn met answered =>
          obtain ⟨here, beside⟩ := answers _ calling op next reply s before turn answered
          by_cases same : tid = calling
          · subst same
            have holds := ih tid
            rw [turn] at holds
            rw [resume_same]
            exact (holds _ .refl).2 reply s here
          · rw [resume_other same]
            exact Machine.wp_drift (ih tid) (.single beside)
      | interfere moved => exact Machine.wp_drift (ih tid) (.single (moves _ _ before moved))

/-! Pools as functions -/

/-- An executable system: it answers at most one way, and its surroundings make the moves they are
told to make. -/
structure Driver (Tid Op : Type) (Reply : Op → Type) (σ Move : Type) where
  answer : Tid → σ → (op : Op) → Option (Reply op × σ)
  interfere : Move → σ → Option σ

variable {Move : Type}

/-- What the scheduler chooses. -/
inductive Turn (Tid Op : Type) (Reply : Op → Type) (α Move : Type)
  | start (tid : Tid) (program : Prog Op Reply α)
  | take (tid : Tid)
  | move (move : Move)

def Driver.step (D : Driver Tid Op Reply σ Move) (pool : Pool Tid Op Reply σ α) :
    Turn Tid Op Reply α Move → Option (Pool Tid Op Reply σ α)
  | .start tid program =>
      match pool.threads tid with
      | .done _ => some (pool.resume tid program pool.shared)
      | .call _ _ => none
  | .take tid =>
      match pool.threads tid with
      | .done _ => none
      | .call op next =>
          (D.answer tid pool.shared op).map fun (reply, s) => pool.resume tid (next reply) s
  | .move move => (D.interfere move pool.shared).map fun s => { pool with shared := s }

/-- A driver makes only moves of the system, and takes no operation that breaks the condition. -/
structure Driver.Sound (D : Driver Tid Op Reply σ Move) (S : System Tid Op Reply σ)
    (cond : Pool Tid Op Reply σ α → Tid → Op → Prop) : Prop where
  answer : ∀ tid s op reply s', D.answer tid s op = some (reply, s') → S.answer tid s op reply s'
  interfere : ∀ move s s', D.interfere move s = some s' → S.interfere s s'
  met : ∀ (pool : Pool Tid Op Reply σ α) tid op, (D.answer tid pool.shared op).isSome →
    cond pool tid op

/-- The programs that a turn starts. -/
def Turn.Starts (programs : Prog Op Reply α → Prop) : Turn Tid Op Reply α Move → Prop
  | .start _ program => programs program
  | _ => True

theorem Driver.Sound.step {D : Driver Tid Op Reply σ Move} (sound : D.Sound S cond)
    {pool pool' : Pool Tid Op Reply σ α} {turn : Turn Tid Op Reply α Move}
    (starts : turn.Starts programs) (ran : D.step pool turn = some pool') :
    Step S programs cond pool pool' := by
  cases turn with
  | start tid program =>
      simp only [Driver.step] at ran
      split at ran
      · cases ran
        exact .start (by assumption) starts
      · cases ran
  | take tid =>
      simp only [Driver.step] at ran
      split at ran
      · cases ran
      · rename_i op next turn
        obtain ⟨⟨reply, s⟩, answered, same⟩ := Option.map_eq_some_iff.mp ran
        cases same
        have some : (D.answer tid pool.shared op).isSome := by rw [answered]; rfl
        exact .call turn (sound.met pool tid op some) (sound.answer _ _ _ _ _ answered)
  | move move =>
      obtain ⟨s, moved, same⟩ := Option.map_eq_some_iff.mp ran
      cases same
      exact .interfere (sound.interfere move _ _ moved)

theorem Driver.Sound.reach {D : Driver Tid Op Reply σ Move} (sound : D.Sound S cond)
    (turns : List (Turn Tid Op Reply α Move)) (starts : ∀ turn ∈ turns, turn.Starts programs)
    (before : Reach S programs cond initial pool) {pool' : Pool Tid Op Reply σ α}
    (ran : turns.foldlM D.step pool = some pool') : Reach S programs cond initial pool' := by
  induction turns generalizing pool with
  | nil =>
      cases ran
      exact before
  | cons turn rest ih =>
      obtain ⟨middle, first, later⟩ := Option.bind_eq_some_iff.mp ran
      have here := before.step (sound.step (starts turn List.mem_cons_self) first)
      exact ih (fun turn later => starts turn (List.mem_cons_of_mem _ later)) here later

end Pool

end Interaction

import AmbaPci.InteractionAtomic
import AmbaPci.InteractionPool

set_option autoImplicit false

/- Threads that work on one state under one lock. When the sections under the lock are atomic, the
state is at every moment at which nobody holds the lock one that whole sections lead to. -/
namespace Interaction

open Relation (ReflTransGen)

variable {Inner Outer Tid : Type} {InnerReply : Inner → Type} {OuterReply : Outer → Type}
  {σ α β : Type}

/-- The steps of such a thread: `inner` operations are those of a section. -/
inductive LockedOp (Inner Outer : Type)
  | lock
  | unlock
  | inner (op : Inner)
  | outer (op : Outer)

abbrev LockedOp.Reply (InnerReply : Inner → Type) (OuterReply : Outer → Type) :
    LockedOp Inner Outer → Type
  | .lock => Unit
  | .unlock => Unit
  | .inner op => InnerReply op
  | .outer op => OuterReply op

abbrev LockedProg (InnerReply : Inner → Type) (OuterReply : Outer → Type) (α : Type) : Type :=
  Prog (LockedOp Inner Outer) (LockedOp.Reply InnerReply OuterReply) α

/-- The code of a section as steps of a thread. -/
def inside (body : Prog Inner InnerReply α) : LockedProg InnerReply OuterReply α :=
  body.interp fun op => Prog.perform (.inner op)

/-- A section and what the thread does with its result after the unlock. -/
def locked (body : Prog Inner InnerReply β) (next : β → LockedProg InnerReply OuterReply α) :
    LockedProg InnerReply OuterReply α :=
  .call .lock fun _ => inside body >>= fun value => .call .unlock fun _ => next value

/-- What threads take the lock for, what such a section can return, and what they do without the
lock. -/
structure Discipline (Inner Outer : Type) (InnerReply : Inner → Type) where
  sections : (β : Type) → Prog Inner InnerReply β → Prop
  results : (β : Type) → Prog Inner InnerReply β → β → Prop
  allowed : Outer → Prop

/-- A thread without the lock: it takes it for sections of the given kind only, and does nothing
that belongs into a section outside. -/
inductive Outside (D : Discipline Inner Outer InnerReply) :
    LockedProg InnerReply OuterReply α → Prop
  | done (value : α) : Outside D (.done value)
  | outer {op : Outer} {next : OuterReply op → LockedProg InnerReply OuterReply α}
      (met : D.allowed op) (rest : ∀ reply, Outside D (next reply)) :
      Outside D (.call (.outer op) next)
  | locked {β : Type} {body : Prog Inner InnerReply β}
      {next : β → LockedProg InnerReply OuterReply α} (known : D.sections β body)
      (rest : ∀ value, D.results β body value → Outside D (next value)) :
      Outside D (locked body next)

variable {D : Discipline Inner Outer InnerReply}

theorem locked_bind (body : Prog Inner InnerReply β)
    (next : β → LockedProg InnerReply OuterReply α) {γ : Type}
    (later : α → LockedProg InnerReply OuterReply γ) :
    locked body next >>= later = locked body fun value => next value >>= later := by
  unfold locked
  simp only [Prog.call_bind, Prog.bind_assoc]

theorem Outside.bind {first : LockedProg InnerReply OuterReply α}
    {next : α → LockedProg InnerReply OuterReply β} (before : Outside D first)
    (after : ∀ value, Outside D (next value)) : Outside D (first >>= next) := by
  induction before with
  | done value => exact after value
  | outer met rest ih => exact .outer met ih
  | locked known rest ih =>
      rw [locked_bind]
      exact .locked known ih

/-- What a thread without the lock does next. -/
def Outside.Goes (D : Discipline Inner Outer InnerReply) :
    LockedProg InnerReply OuterReply α → Prop
  | .done _ => True
  | .call .lock next => ∃ (β : Type) (body : Prog Inner InnerReply β)
      (after : β → LockedProg InnerReply OuterReply α), D.sections β body ∧
      (∀ value, D.results β body value → Outside D (after value)) ∧
      next () = inside body >>= fun value => .call .unlock fun _ => after value
  | .call .unlock _ => False
  | .call (.inner _) _ => False
  | .call (.outer op) next => D.allowed op ∧ ∀ reply, Outside D (next reply)

theorem Outside.goes {program : LockedProg InnerReply OuterReply α}
    (holds : Outside D program) : Outside.Goes D program := by
  cases holds with
  | done value => trivial
  | outer met rest => exact ⟨met, rest⟩
  | locked known rest => exact ⟨_, _, _, known, rest, rfl⟩

/-- A program whose operations are each a thread without the lock. -/
theorem Outside.interp {Op : Type} {Reply : Op → Type} {allowed : Op → Prop}
    {handler : (op : Op) → LockedProg InnerReply OuterReply (Reply op)}
    (handled : ∀ op, allowed op → Outside D (handler op)) {program : Prog Op Reply α}
    (calls : program.Calls allowed) : Outside D (program.interp handler) := by
  induction program with
  | done value => exact .done value
  | call op rest ih =>
      exact Outside.bind (handled op calls.1) fun reply => ih reply (calls.2 reply)

structure LockedState (Tid σ : Type) where
  owner : Option Tid
  state : σ

/-- Operations without the lock have an effect of their own on the state, and so have the moves of
the surroundings. To a section both are interference. -/
def lockedSystem [DecidableEq Tid] (M : Machine Inner InnerReply σ) (moves : σ → σ → Prop)
    (outer : σ → (op : Outer) → OuterReply op → σ → Prop) :
    System Tid (LockedOp Inner Outer) (LockedOp.Reply InnerReply OuterReply)
      (LockedState Tid σ) where
  answer tid s op reply s' :=
    match op, reply with
    | .lock, _ => s.owner = none ∧ s' = { s with owner := some tid }
    | .unlock, _ => s' = { s with owner := none }
    | .inner op, reply => M.answer s.state op reply s'.state ∧ s'.owner = s.owner
    | .outer op, reply => outer s.state op reply s'.state ∧ s'.owner = s.owner
  interfere s s' := moves s.state s'.state ∧ s'.owner = s.owner

section Solo

variable [DecidableEq Tid] {M : Machine Inner InnerReply σ} {moves : σ → σ → Prop}
  {outer : σ → (op : Outer) → OuterReply op → σ → Prop}

theorem inside_solo (tid : Tid) {body : Prog Inner InnerReply β} {value : β} {s s' : σ}
    {next : β → LockedProg InnerReply OuterReply α}
    (ran : M.alone.Steps (body, s) (.done value, s')) :
    (Pool.solo (lockedSystem M moves outer) tid).Steps
      (inside body >>= next, ⟨some tid, s⟩) (next value, ⟨some tid, s'⟩) := by
  induction body generalizing s with
  | done result =>
      obtain ⟨same, still⟩ := Machine.alone_done ran
      cases same
      rw [still]
      exact .refl
  | call op rest ih =>
      obtain ⟨reply, s₁, answered, later⟩ := Machine.alone_call ran
      have here : (lockedSystem M moves outer).answer tid ⟨some tid, s⟩ (.inner op) reply
          ⟨some tid, s₁⟩ := ⟨answered, rfl⟩
      exact Machine.Steps.call here (ih reply later)

/-- What a section does alone, a thread does that finds the lock free. -/
theorem locked_solo (tid : Tid) {body : Prog Inner InnerReply β} {value : β} {s s' : σ}
    {next : β → LockedProg InnerReply OuterReply α}
    (ran : M.alone.Steps (body, s) (.done value, s')) :
    (Pool.solo (lockedSystem M moves outer) tid).Steps
      (locked body next, ⟨none, s⟩) (next value, ⟨none, s'⟩) := by
  have takes : (lockedSystem M moves outer).answer tid ⟨none, s⟩ .lock () ⟨some tid, s⟩ :=
    ⟨rfl, rfl⟩
  have leaves : (lockedSystem M moves outer).answer tid ⟨some tid, s'⟩ .unlock () ⟨none, s'⟩ := rfl
  have within : (Pool.solo (lockedSystem M moves outer) tid).Steps
      (inside body >>= fun value => .call .unlock fun _ => next value, ⟨some tid, s⟩)
      (.call .unlock fun _ => next value, ⟨some tid, s'⟩) := inside_solo tid ran
  exact Machine.Steps.perform () _ takes
    (within.trans (Machine.Steps.perform () _ leaves .refl))

theorem outer_solo (tid : Tid) {op : Outer} {reply : OuterReply op} {s : LockedState Tid σ}
    {s' : σ} {next : OuterReply op → LockedProg InnerReply OuterReply α}
    {finish : LockedProg InnerReply OuterReply α × LockedState Tid σ}
    (answered : outer s.state op reply s')
    (rest : (Pool.solo (lockedSystem M moves outer) tid).Steps (next reply, ⟨s.owner, s'⟩) finish) :
    (Pool.solo (lockedSystem M moves outer) tid).Steps
      (Prog.perform (.outer op) >>= next, s) finish := by
  have here : (lockedSystem M moves outer).answer tid s (.outer op) reply ⟨s.owner, s'⟩ :=
    ⟨answered, rfl⟩
  exact Machine.Steps.call here rest

end Solo

/-- One whole section, or one move of the surroundings. -/
def SectionMove (M : Machine Inner InnerReply σ)
    (sections : (β : Type) → Prog Inner InnerReply β → Prop) (s s' : σ) : Prop :=
  M.interfere s s' ∨ ∃ (β : Type) (body : Prog Inner InnerReply β) (value : β),
    sections β body ∧ M.alone.Steps (body, s) (.done value, s')

/-- Sections in one piece: between their operations the surroundings move as they could before or
after them. -/
structure Discipline.Sound (D : Discipline Inner Outer InnerReply) (M : Machine Inner InnerReply σ)
    (early late : Inner → Prop) : Prop where
  commutesEarly : ∀ op, early op → M.Early op
  commutesLate : ∀ op, late op → M.Late op
  atomic : ∀ (β : Type) (body : Prog Inner InnerReply β), D.sections β body →
    body.Atomic early late

/-- A whole section has returned this, and the surroundings have moved on to the state. -/
def Whole (M : Machine Inner InnerReply σ)
    (sections : (β : Type) → Prog Inner InnerReply β → Prop) (start : σ) (β : Type)
    (body : Prog Inner InnerReply β) (value : β) (s : σ) : Prop :=
  ∃ s₁ s₂, sections β body ∧ ReflTransGen (SectionMove M sections) start s₁ ∧
    M.alone.Steps (body, s₁) (.done value, s₂) ∧ M.Drift s₂ s

/-- Where a thread is: outside, or in a section that has begun in a state that whole sections lead
to. -/
def Placed [DecidableEq Tid] (M : Machine Inner InnerReply σ)
    (D : Discipline Inner Outer InnerReply) (start : σ) (tid : Tid)
    (pool : Pool Tid (LockedOp Inner Outer) (LockedOp.Reply InnerReply OuterReply)
      (LockedState Tid σ) α) : Prop :=
  if pool.shared.owner = some tid then
    ∃ (β : Type) (body rest : Prog Inner InnerReply β)
      (next : β → LockedProg InnerReply OuterReply α) (s₀ : σ),
      D.sections β body ∧ ReflTransGen (SectionMove M D.sections) start s₀ ∧
      M.Steps (body, s₀) (rest, pool.shared.state) ∧
      (pool.threads tid = inside rest >>= fun value => .call .unlock fun _ => next value) ∧
      ∀ value, D.results β body value → Outside D (next value)
  else Outside D (pool.threads tid)

/-- Where all the threads are. Whole sections lead to the state while nobody holds the lock. -/
structure Serialized [DecidableEq Tid] (M : Machine Inner InnerReply σ)
    (D : Discipline Inner Outer InnerReply) (start : σ)
    (pool : Pool Tid (LockedOp Inner Outer) (LockedOp.Reply InnerReply OuterReply)
      (LockedState Tid σ) α) : Prop where
  reached : pool.shared.owner = none →
    ReflTransGen (SectionMove M D.sections) start pool.shared.state
  placed : ∀ tid, Placed M D start tid pool

section Serialized

variable [DecidableEq Tid] {M : Machine Inner InnerReply σ} {start : σ} {early late : Inner → Prop}
  {pool pool' : Pool Tid (LockedOp Inner Outer) (LockedOp.Reply InnerReply OuterReply)
    (LockedState Tid σ) α} {tid : Tid}

theorem drift_moves {s s' : σ} (moved : M.Drift s s') :
    ReflTransGen (SectionMove M D.sections) s s' := by
  induction moved with
  | refl => exact .refl
  | tail _ last ih => exact ih.tail (Or.inl last)

/-- A section that has come to its end is a whole one, between moves of the surroundings. -/
theorem section_whole (sound : D.Sound M early late) {body : Prog Inner InnerReply β}
    (known : D.sections β body) {value : β} {s s' : σ}
    (reached : ReflTransGen (SectionMove M D.sections) start s)
    (run : M.Steps (body, s) (.done value, s')) :
    Whole M D.sections start β body value s' := by
  obtain ⟨s₁, s₂, before, ran, after⟩ :=
    Machine.atomic_runs sound.commutesEarly sound.commutesLate (sound.atomic β body known) run
  exact ⟨s₁, s₂, known, reached.trans (drift_moves before), ran, after⟩

theorem Whole.moves {body : Prog Inner InnerReply β} {value : β} {s : σ}
    (whole : Whole M D.sections start β body value s) :
    ReflTransGen (SectionMove M D.sections) start s := by
  obtain ⟨s₁, s₂, known, reached, ran, after⟩ := whole
  have once : SectionMove M D.sections s₁ s₂ := Or.inr ⟨β, body, value, known, ran⟩
  exact (reached.tail once).trans (drift_moves after)

theorem Placed.outside (placed : Placed M D start tid pool)
    (elsewhere : pool.shared.owner ≠ some tid) : Outside D (pool.threads tid) := by
  unfold Placed at placed
  rwa [if_neg elsewhere] at placed

/-- The holder of the lock is in its section. -/
theorem Placed.within (placed : Placed M D start tid pool)
    (held : pool.shared.owner = some tid) :
    ∃ (β : Type) (body rest : Prog Inner InnerReply β)
      (next : β → LockedProg InnerReply OuterReply α) (s₀ : σ),
      D.sections β body ∧ ReflTransGen (SectionMove M D.sections) start s₀ ∧
      M.Steps (body, s₀) (rest, pool.shared.state) ∧
      (pool.threads tid = inside rest >>= fun value => .call .unlock fun _ => next value) ∧
      ∀ value, D.results β body value → Outside D (next value) := by
  unfold Placed at placed
  rwa [if_pos held] at placed

/-- A thread that has returned is outside. -/
theorem Placed.idle (placed : Placed M D start tid pool) {value : α}
    (idle : pool.threads tid = .done value) : pool.shared.owner ≠ some tid := by
  intro held
  obtain ⟨β, body, rest, next, s₀, -, -, -, turn, -⟩ := placed.within held
  rw [idle] at turn
  cases rest with
  | done result => cases turn
  | call op after => cases turn

/-- The state moves as surroundings may, and the thread does nothing. -/
theorem Placed.drift (placed : Placed M D start tid pool)
    (same : pool'.threads tid = pool.threads tid)
    (kept : pool'.shared.owner = some tid ↔ pool.shared.owner = some tid)
    (moved : pool.shared.owner = some tid → M.Drift pool.shared.state pool'.shared.state) :
    Placed M D start tid pool' := by
  unfold Placed
  rw [same]
  by_cases held : pool.shared.owner = some tid
  · obtain ⟨β, body, rest, next, s₀, known, reached, run, turn, after⟩ := placed.within held
    rw [if_pos (kept.mpr held)]
    exact ⟨β, body, rest, next, s₀, known, reached,
      run.trans (Machine.Steps.drift (moved held)), turn, after⟩
  · rw [if_neg (mt kept.mp held)]
    exact placed.outside held

/-- A thread about to do a section's operation is in a section that has come to it. -/
theorem Placed.inner (placed : Placed M D start tid pool) {op : Inner}
    {next : InnerReply op → LockedProg InnerReply OuterReply α}
    (turn : pool.threads tid = .call (.inner op) next) :
    ∃ (β : Type) (body : Prog Inner InnerReply β) (rest : InnerReply op → Prog Inner InnerReply β)
      (s₀ : σ), D.sections β body ∧ ReflTransGen (SectionMove M D.sections) start s₀ ∧
      M.Steps (body, s₀) (.call op rest, pool.shared.state) := by
  by_cases held : pool.shared.owner = some tid
  · obtain ⟨β, body, rest, after, s₀, known, reached, run, there, -⟩ := placed.within held
    rw [turn] at there
    cases rest with
    | done value => cases there
    | call op' rest =>
        cases there
        exact ⟨β, body, rest, s₀, known, reached, run⟩
  · have here := (placed.outside held).goes
    rw [turn] at here
    exact here.elim

/-- What a thread does without the lock is allowed. -/
theorem Placed.allowed (placed : Placed M D start tid pool) {op : Outer}
    {next : OuterReply op → LockedProg InnerReply OuterReply α}
    (turn : pool.threads tid = .call (.outer op) next) : D.allowed op := by
  by_cases held : pool.shared.owner = some tid
  · obtain ⟨β, body, rest, after, s₀, -, -, -, there, -⟩ := placed.within held
    rw [turn] at there
    cases rest with
    | done value => cases there
    | call op' rest => cases there
  · have here := (placed.outside held).goes
    rw [turn] at here
    exact here.1

section Keeps

variable {assertion : σ → Prop} {guard : σ → Inner → Prop} (stable : M.Stable assertion)
  (keeps : ∀ (β : Type) (body : Prog Inner InnerReply β) s, D.sections β body → assertion s →
    M.wp (fun s' op => assertion s' ∧ guard s' op) (fun _ => assertion) body s)

include stable keeps

theorem sectionMoves_keep {s s' : σ} (moved : ReflTransGen (SectionMove M D.sections) s s')
    (holds : assertion s) : assertion s' := by
  induction moved with
  | refl => exact holds
  | tail _ last ih =>
      rcases last with moved | ⟨β, body, value, known, ran⟩
      · exact stable _ _ ih moved
      · exact Machine.wp_post (keeps β body _ known ih) (Machine.steps_of_alone ran)

/-- What every section keeps at every point holds at every moment. -/
theorem Serialized.always (holds : Serialized M D start pool) (here : assertion start) :
    assertion pool.shared.state := by
  cases held : pool.shared.owner with
  | none => exact sectionMoves_keep stable keeps (holds.reached held) here
  | some tid =>
      obtain ⟨β, body, rest, next, s₀, known, reached, run, -, -⟩ := (holds.placed tid).within held
      have begun := sectionMoves_keep stable keeps reached here
      exact Machine.wp_reached (keeps β body s₀ known begun) (fun _ _ ready => ready.1)
        (fun _ _ done => done) run

/-- Every operation of a section meets the sections' guard. -/
theorem Serialized.guarded (holds : Serialized M D start pool) (here : assertion start)
    {op : Inner} {next : InnerReply op → LockedProg InnerReply OuterReply α}
    (turn : pool.threads tid = .call (.inner op) next) : guard pool.shared.state op := by
  obtain ⟨β, body, rest, s₀, known, reached, run⟩ := (holds.placed tid).inner turn
  have begun := sectionMoves_keep stable keeps reached here
  exact (Machine.wp_guard (keeps β body s₀ known begun) run).2

end Keeps

section Steps

variable {moves : σ → σ → Prop} {outer : σ → (op : Outer) → OuterReply op → σ → Prop}
  {programs : LockedProg InnerReply OuterReply α → Prop}
  {cond : Pool Tid (LockedOp Inner Outer) (LockedOp.Reply InnerReply OuterReply)
    (LockedState Tid σ) α → Tid → LockedOp Inner Outer → Prop}
  {D' : Discipline Inner Outer InnerReply}
  (drifts : ∀ s s', moves s s' → M.Drift s s')
  (outerDrifts : ∀ s op reply s', outer s op reply s' → M.Drift s s')

include outerDrifts in
/-- A step of another thread is to this one a move of the surroundings. -/
theorem Placed.beside (placed : Placed M D start tid pool) {other : Tid}
    (theirs : Placed M D' start other pool) (apart : other ≠ tid)
    {op : LockedOp Inner Outer} {reply : LockedOp.Reply InnerReply OuterReply op}
    {next : LockedOp.Reply InnerReply OuterReply op → LockedProg InnerReply OuterReply α}
    {s : LockedState Tid σ} (turn : pool.threads other = .call op next)
    (answered : (lockedSystem M moves outer).answer other pool.shared op reply s) :
    Placed M D start tid (pool.resume other (next reply) s) := by
  have away : some other ≠ some tid := fun same => apart (Option.some.inj same)
  have frame : (pool.resume other (next reply) s).threads tid = pool.threads tid :=
    Pool.resume_other (Ne.symm apart)
  by_cases held : pool.shared.owner = some other
  · have mine : pool.shared.owner ≠ some tid := fun here => away (held.symm.trans here)
    refine placed.drift frame (iff_of_false ?_ mine) fun here => absurd here mine
    rw [Pool.resume_shared]
    cases op with
    | lock => exact fun _ => by cases held.symm.trans answered.1
    | unlock =>
        rw [show s = { pool.shared with owner := none } from answered]
        exact fun free => by cases free
    | inner op =>
        rw [show s.owner = pool.shared.owner from answered.2]
        exact mine
    | outer op =>
        rw [show s.owner = pool.shared.owner from answered.2]
        exact mine
  · have here := (theirs.outside held).goes
    rw [turn] at here
    cases op with
    | lock =>
        obtain ⟨free, taken⟩ := answered
        have mine : pool.shared.owner ≠ some tid := fun there => by cases free.symm.trans there
        refine placed.drift frame (iff_of_false ?_ mine) fun there => absurd there mine
        rw [Pool.resume_shared, taken]
        exact away
    | unlock => exact here.elim
    | inner op => exact here.elim
    | outer op =>
        refine placed.drift frame ?_ fun _ => outerDrifts _ _ _ _ answered.1
        rw [Pool.resume_shared, show s.owner = pool.shared.owner from answered.2]

/-- A step of the thread itself. When it leaves a section, what that has returned has to be a
result. -/
theorem Placed.call (sound : D.Sound M early late) (placed : Placed M D start tid pool)
    (reached : pool.shared.owner = none →
      ReflTransGen (SectionMove M D.sections) start pool.shared.state)
    (produces : pool.shared.owner = some tid → ∀ β body value,
      Whole M D.sections start β body value pool.shared.state → D.results β body value)
    {op : LockedOp Inner Outer} {reply : LockedOp.Reply InnerReply OuterReply op}
    {next : LockedOp.Reply InnerReply OuterReply op → LockedProg InnerReply OuterReply α}
    {s : LockedState Tid σ} (turn : pool.threads tid = .call op next)
    (answered : (lockedSystem M moves outer).answer tid pool.shared op reply s) :
    Placed M D start tid (pool.resume tid (next reply) s) := by
  unfold Placed
  rw [Pool.resume_shared, Pool.resume_same]
  by_cases held : pool.shared.owner = some tid
  · obtain ⟨β, body, rest, after, s₀, known, begun, run, there, outsideAfter⟩ :=
      placed.within held
    rw [turn] at there
    cases rest with
    | done value =>
        cases there
        rw [show s = { pool.shared with owner := none } from answered, if_neg (by simp)]
        exact outsideAfter value (produces held β body value (section_whole sound known begun run))
    | call op' rest =>
        cases there
        rw [if_pos (answered.2.trans held)]
        exact ⟨β, body, rest reply, after, s₀, known, begun, run.tail (.call answered.1), rfl,
          outsideAfter⟩
  · have here := (placed.outside held).goes
    rw [turn] at here
    cases op with
    | lock =>
        obtain ⟨β, body, after, known, rest, same⟩ := here
        obtain ⟨free, taken⟩ := answered
        rw [taken, if_pos rfl]
        exact ⟨β, body, body, after, pool.shared.state, known, reached free, .refl, same, rest⟩
    | unlock => exact here.elim
    | inner op => exact here.elim
    | outer op =>
        rw [if_neg (by rw [show s.owner = pool.shared.owner from answered.2]; exact held)]
        exact here.2 reply

include drifts outerDrifts in
/-- One step of any thread, to one of them. -/
theorem Placed.step (sound : D.Sound M early late) (holds : Serialized M D' start pool)
    (same : D'.sections = D.sections)
    (produces : pool.shared.owner = some tid → ∀ β body value,
      Whole M D.sections start β body value pool.shared.state → D.results β body value)
    (starts : ∀ program, programs program → Outside D program)
    (placed : Placed M D start tid pool)
    (step : Pool.Step (lockedSystem M moves outer) programs cond pool pool') :
    Placed M D start tid pool' := by
  cases step with
  | @start other program value idle allowed =>
      by_cases mine : other = tid
      · subst mine
        unfold Placed
        rw [Pool.resume_shared, Pool.resume_same, if_neg (placed.idle idle)]
        exact starts program allowed
      · exact placed.drift (Pool.resume_other (Ne.symm mine)) .rfl fun _ => .refl
  | interfere moved =>
      refine placed.drift rfl ?_ fun _ => drifts _ _ moved.1
      rw [moved.2]
  | @call other op next reply s turn _ answered =>
      by_cases mine : other = tid
      · subst mine
        exact placed.call sound (fun free => same ▸ holds.reached free) produces turn answered
      · exact placed.beside outerDrifts (holds.placed other) mine turn answered

include drifts outerDrifts in
/-- One step of any thread. -/
theorem Serialized.step (sound : D.Sound M early late)
    (produces : ∀ β body value s, Whole M D.sections start β body value s →
      D.results β body value)
    (starts : ∀ program, programs program → Outside D program)
    (holds : Serialized M D start pool)
    (step : Pool.Step (lockedSystem M moves outer) programs cond pool pool') :
    Serialized M D start pool' where
  placed tid := (holds.placed tid).step drifts outerDrifts sound holds rfl
    (fun _ β body value => produces β body value _) starts step
  reached free := by
    cases step with
    | start => exact holds.reached free
    | interfere moved =>
        exact (holds.reached (moved.2.symm.trans free)).trans (drift_moves (drifts _ _ moved.1))
    | @call tid op next reply s turn _ answered =>
        rw [Pool.resume_shared] at free ⊢
        by_cases held : pool.shared.owner = some tid
        · obtain ⟨β, body, rest, after, s₀, known, begun, run, there, -⟩ :=
            (holds.placed tid).within held
          rw [turn] at there
          cases rest with
          | done value =>
              cases there
              rw [show s = { pool.shared with owner := none } from answered]
              exact (section_whole sound known begun run).moves
          | call op' rest =>
              cases there
              have kept : s.owner = some tid := answered.2.trans held
              rw [kept] at free
              cases free
        · have here := ((holds.placed tid).outside held).goes
          rw [turn] at here
          cases op with
          | lock =>
              rw [answered.2] at free
              cases free
          | unlock => exact here.elim
          | inner op => exact here.elim
          | outer op =>
              exact (holds.reached (answered.2.symm.trans free)).trans
                (drift_moves (outerDrifts _ _ _ _ answered.1))

include drifts outerDrifts in
/-- Whenever the lock is free, whole sections lead to the state, whatever the interleaving. -/
theorem sequential_of_reach
    {initial : Pool Tid (LockedOp Inner Outer) (LockedOp.Reply InnerReply OuterReply)
      (LockedState Tid σ) α}
    (sound : D.Sound M early late)
    (produces : ∀ β body value s, Whole M D.sections initial.shared.state β body value s →
      D.results β body value)
    (starts : ∀ program, programs program → Outside D program)
    (unlocked : initial.shared.owner = none)
    (threads : ∀ tid, Outside D (initial.threads tid))
    (reach : Pool.Reach (lockedSystem M moves outer) programs cond initial pool) :
    Serialized M D initial.shared.state pool := by
  have here : Serialized M D initial.shared.state initial := by
    refine ⟨fun _ => .refl, fun tid => ?_⟩
    unfold Placed
    rw [unlocked, if_neg (by simp)]
    exact threads tid
  exact reach.invariant _ here fun _ _ holds step =>
    holds.step drifts outerDrifts sound produces starts step

/-! A run from moment to moment -/

/-- What a section has returned in the call of a thread that is under way at moment `n`. -/
def CallResult (M : Machine Inner InnerReply σ)
    (sections : (β : Type) → Prog Inner InnerReply β → Prop) (start : σ)
    (pools : Nat → Pool Tid (LockedOp Inner Outer) (LockedOp.Reply InnerReply OuterReply)
      (LockedState Tid σ) α) (tid : Tid) (n : Nat) (β : Type) (body : Prog Inner InnerReply β)
    (value : β) : Prop :=
  ∃ i, Pool.InCall pools tid i n ∧ (pools i).shared.owner = some tid ∧
    Whole M sections start β body value (pools i).shared.state

include drifts outerDrifts in
/-- What a thread does without the lock may depend on what its own call's sections have returned, in
this very run. -/
theorem placed_of_history
    {initial : Pool Tid (LockedOp Inner Outer) (LockedOp.Reply InnerReply OuterReply)
      (LockedState Tid σ) α}
    {pools : Nat → Pool Tid (LockedOp Inner Outer) (LockedOp.Reply InnerReply OuterReply)
      (LockedState Tid σ) α} {n : Nat}
    (sound : D.Sound M early late)
    (history : Pool.History (lockedSystem M moves outer) programs cond initial pools n)
    (serialized : ∀ i, i ≤ n → Serialized M D' start (pools i)) (same : D'.sections = D.sections)
    (produces : ∀ β body value, CallResult M D.sections start pools tid n β body value →
      D.results β body value)
    (starts : ∀ program, programs program → Outside D program)
    (idle : ∃ value, initial.threads tid = .done value) :
    Placed M D start tid (pools n) := by
  rw [← history.first] at idle
  obtain ⟨m, before, ⟨value, returned⟩, call⟩ := Pool.exists_idle idle n
  have general : ∀ more, m + more ≤ n → Placed M D start tid (pools (m + more)) := by
    intro more
    induction more with
    | zero =>
        intro within
        have elsewhere := ((serialized m before).placed tid).idle returned
        unfold Placed
        rw [Nat.add_zero, if_neg elsewhere, returned]
        exact .done value
    | succ more ih =>
        intro within
        refine (ih (by omega)).step drifts outerDrifts sound (serialized _ (by omega)) same ?_
          starts (history.step _ (by omega))
        intro held β body result whole
        apply produces
        refine ⟨m + more, ?_, held, whole⟩
        have started : more ≠ 0 := by
          intro first
          rw [first] at held
          exact ((serialized m before).placed tid).idle returned held
        exact call _ (by omega) (by omega)
  have last := general (n - m) (by omega)
  rwa [Nat.add_sub_cancel' before] at last

end Steps

end Serialized

end Interaction

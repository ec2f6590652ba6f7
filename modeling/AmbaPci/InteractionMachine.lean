import AmbaPci.Interaction

set_option autoImplicit false

namespace Interaction

open Relation (ReflTransGen)

variable {Op : Type} {Reply : Op → Type} {σ α β : Type}

/-- What a program runs on: a shared state in which operations are answered, and the steps that
the rest of the system may take between any two of them. -/
structure Machine (Op : Type) (Reply : Op → Type) (σ : Type) where
  answer : σ → (op : Op) → Reply op → σ → Prop
  interfere : σ → σ → Prop

namespace Machine

/-- One step of a program or of its surroundings. -/
inductive Step (M : Machine Op Reply σ) : Prog Op Reply α × σ → Prog Op Reply α × σ → Prop
  | call {op : Op} {next : Reply op → Prog Op Reply α} {s s' : σ} {reply : Reply op}
      (answered : M.answer s op reply s') : Step M (.call op next, s) (next reply, s')
  | interfere {program : Prog Op Reply α} {s s' : σ} (moved : M.interfere s s') :
      Step M (program, s) (program, s')

abbrev Steps (M : Machine Op Reply σ) (start finish : Prog Op Reply α × σ) : Prop :=
  ReflTransGen (Step M) start finish

/-- Any number of steps of the surroundings alone. -/
abbrev Drift (M : Machine Op Reply σ) (s s' : σ) : Prop := ReflTransGen M.interfere s s'

/-- An assertion that the surroundings cannot break. -/
def Stable (M : Machine Op Reply σ) (assertion : σ → Prop) : Prop :=
  ∀ s s', assertion s → M.interfere s s' → assertion s'

theorem Stable.drift {M : Machine Op Reply σ} {assertion : σ → Prop} (stable : M.Stable assertion)
    {s s' : σ} (holds : assertion s) (moved : M.Drift s s') : assertion s' := by
  induction moved with
  | refl => exact holds
  | tail _ last ih => exact stable _ _ ih last

/-- Weakest precondition under interference: `guard` holds whenever an operation is about to be
called, wherever the surroundings have moved, and `post` holds of every returned value. -/
def wp (M : Machine Op Reply σ) (guard : σ → Op → Prop) (post : α → σ → Prop) :
    Prog Op Reply α → σ → Prop
  | .done value, s => ∀ s', M.Drift s s' → post value s'
  | .call op next, s => ∀ s', M.Drift s s' →
      guard s' op ∧ ∀ reply s'', M.answer s' op reply s'' → wp M guard post (next reply) s''

variable {M : Machine Op Reply σ} {guard : σ → Op → Prop} {post : α → σ → Prop}

theorem wp_drift {program : Prog Op Reply α} {s s' : σ} (holds : M.wp guard post program s)
    (moved : M.Drift s s') : M.wp guard post program s' := by
  cases program with
  | done value => exact fun s'' later => holds s'' (moved.trans later)
  | call op next => exact fun s'' later => holds s'' (moved.trans later)

theorem wp_step {start finish : Prog Op Reply α × σ} (holds : M.wp guard post start.1 start.2)
    (step : M.Step start finish) : M.wp guard post finish.1 finish.2 := by
  cases step with
  | call answered => exact (holds _ .refl).2 _ _ answered
  | interfere moved => exact wp_drift holds (.single moved)

theorem wp_steps {program : Prog Op Reply α} {s : σ} {finish : Prog Op Reply α × σ}
    (holds : M.wp guard post program s) (run : M.Steps (program, s) finish) :
    M.wp guard post finish.1 finish.2 := by
  induction run with
  | refl => exact holds
  | tail _ last ih => exact wp_step ih last

/-- The guard holds at every operation of every run. -/
theorem wp_guard {program : Prog Op Reply α} {s s' : σ} (holds : M.wp guard post program s)
    {op : Op} {next : Reply op → Prog Op Reply α}
    (run : M.Steps (program, s) (.call op next, s')) : guard s' op :=
  (wp_steps holds run s' .refl).1

theorem wp_post {program : Prog Op Reply α} {s s' : σ} (holds : M.wp guard post program s)
    {value : α} (run : M.Steps (program, s) (.done value, s')) : post value s' :=
  wp_steps holds run s' .refl

/-- What every guard and every postcondition says of the state holds wherever a run has come. -/
theorem wp_reached {assertion : σ → Prop} {program : Prog Op Reply α} {s : σ}
    (holds : M.wp guard post program s) (ready : ∀ s' op, guard s' op → assertion s')
    (finish : ∀ value s', post value s' → assertion s') {stop : Prog Op Reply α} {s' : σ}
    (run : M.Steps (program, s) (stop, s')) : assertion s' := by
  have here := wp_steps holds run
  cases stop with
  | done value => exact finish value s' (here s' .refl)
  | call op next => exact ready s' op (here s' .refl).1

theorem wp_done {assertion : σ → Prop} (stable : M.Stable assertion) {value : α} {s : σ}
    (holds : assertion s) (finish : ∀ s', assertion s' → post value s') :
    M.wp guard post (.done value) s :=
  fun s' moved => finish s' (stable.drift holds moved)

/-- One operation: it is enough to reason from an assertion that the surroundings keep. -/
theorem wp_call {assertion : σ → Prop} (stable : M.Stable assertion) {op : Op}
    {next : Reply op → Prog Op Reply α} {s : σ} (holds : assertion s)
    (ready : ∀ s', assertion s' → guard s' op)
    (resume : ∀ s' reply s'', assertion s' → M.answer s' op reply s'' →
      M.wp guard post (next reply) s'') :
    M.wp guard post (.call op next) s := by
  intro s' moved
  have here := stable.drift holds moved
  exact ⟨ready s' here, fun reply s'' answered => resume s' reply s'' here answered⟩

theorem wp_perform {post : β → σ → Prop} {assertion : σ → Prop} (stable : M.Stable assertion)
    {op : Op} {next : Reply op → Prog Op Reply β} {s : σ} (holds : assertion s)
    (ready : ∀ s', assertion s' → guard s' op)
    (resume : ∀ s' reply s'', assertion s' → M.answer s' op reply s'' →
      M.wp guard post (next reply) s'') :
    M.wp guard post (Prog.perform op >>= next) s :=
  wp_call stable holds ready resume

theorem wp_mono {post' : α → σ → Prop} {program : Prog Op Reply α} {s : σ}
    (holds : M.wp guard post program s) (weaken : ∀ value s', post value s' → post' value s') :
    M.wp guard post' program s := by
  induction program generalizing s with
  | done value => exact fun s' moved => weaken value s' (holds s' moved)
  | call op next ih =>
      intro s' moved
      obtain ⟨ready, resume⟩ := holds s' moved
      exact ⟨ready, fun reply s'' answered => ih reply (resume reply s'' answered)⟩

theorem wp_and {post' : α → σ → Prop} {program : Prog Op Reply α} {s : σ}
    (first : M.wp guard post program s) (second : M.wp guard post' program s) :
    M.wp guard (fun value s' => post value s' ∧ post' value s') program s := by
  induction program generalizing s with
  | done value => exact fun s' moved => ⟨first s' moved, second s' moved⟩
  | call op next ih =>
      intro s' moved
      obtain ⟨ready, resume⟩ := first s' moved
      obtain ⟨-, resume'⟩ := second s' moved
      exact ⟨ready, fun reply s'' answered =>
        ih reply (resume reply s'' answered) (resume' reply s'' answered)⟩

/-- A postcondition holds however the surroundings move after the return. -/
theorem wp_settled {program : Prog Op Reply α} {s : σ} (holds : M.wp guard post program s) :
    M.wp guard (fun value s' => M.wp guard post (.done value) s') program s := by
  induction program generalizing s with
  | done value => exact fun s' moved => wp_drift holds moved
  | call op next ih =>
      intro s' moved
      obtain ⟨ready, resume⟩ := holds s' moved
      exact ⟨ready, fun reply s'' answered => ih reply (resume reply s'' answered)⟩

theorem wp_bind {post : β → σ → Prop} {first : Prog Op Reply α} {next : α → Prog Op Reply β}
    {s : σ} (holds : M.wp guard (fun value s' => M.wp guard post (next value) s') first s) :
    M.wp guard post (first >>= next) s := by
  induction first generalizing s with
  | done value => exact holds s .refl
  | call op rest ih =>
      intro s' moved
      obtain ⟨ready, resume⟩ := holds s' moved
      exact ⟨ready, fun reply s'' answered => ih reply (resume reply s'' answered)⟩

/-- Along the way, the value is also one that the replies the machine gives can lead to. -/
theorem wp_returns_of {allow : (op : Op) → Reply op → Prop}
    (promised : ∀ s op reply s', M.answer s op reply s' → allow op reply)
    {program : Prog Op Reply α} {s : σ} (holds : M.wp guard post program s) :
    M.wp guard (fun value s' => post value s' ∧ Prog.Returns allow program value) program s := by
  induction program generalizing s with
  | done value => exact fun s' moved => ⟨holds s' moved, .done value⟩
  | call op next ih =>
      intro s' moved
      obtain ⟨ready, resume⟩ := holds s' moved
      refine ⟨ready, fun reply s'' answered => ?_⟩
      have allowed := promised s' op reply s'' answered
      apply wp_mono (ih reply (resume reply s'' answered))
      exact fun value s''' here => ⟨here.1, .call op next reply value allowed here.2⟩

theorem wp_returns {program : Prog Op Reply α} {s : σ} (holds : M.wp guard post program s) :
    M.wp guard (fun value s' => post value s' ∧ Prog.Returns (fun _ _ => True) program value)
      program s :=
  wp_returns_of (fun _ _ _ _ _ => trivial) holds

theorem wp_trivial (program : Prog Op Reply α) (s : σ) :
    M.wp (fun _ _ => True) (fun _ _ => True) program s := by
  induction program generalizing s with
  | done value => exact fun _ _ => trivial
  | call op next ih => exact fun _ _ => ⟨trivial, fun reply s'' _ => ih reply s''⟩

theorem Steps.returns {program : Prog Op Reply α} {s s' : σ} {value : α}
    (run : M.Steps (program, s) (.done value, s')) :
    Prog.Returns (fun _ _ => True) program value :=
  (wp_post (wp_returns (wp_trivial program s)) run).2

/-- A program followed by another: the first one's postcondition is the second's precondition. -/
theorem wp_seq {post : β → σ → Prop} {middle : α → σ → Prop} {first : Prog Op Reply α}
    {next : α → Prog Op Reply β} {s : σ} (holds : M.wp guard middle first s)
    (continue' : ∀ value s', middle value s' → M.wp guard post (next value) s') :
    M.wp guard post (first >>= next) s :=
  wp_bind (wp_mono holds continue')

/-- A program whose every operation keeps an assertion keeps it as a whole. -/
theorem wp_calls {allowed : Op → Prop} {assertion : σ → Prop} (stable : M.Stable assertion)
    (ready : ∀ s op, allowed op → assertion s → guard s op)
    (kept : ∀ s op reply s', allowed op → assertion s → M.answer s op reply s' → assertion s')
    {program : Prog Op Reply α} (calls : program.Calls allowed) {s : σ} (holds : assertion s) :
    M.wp guard (fun _ => assertion) program s := by
  induction program generalizing s with
  | done value => exact wp_done stable holds fun _ here => here
  | call op next ih =>
      apply wp_call stable holds
      · intro s' here
        exact ready s' op calls.1 here
      · intro s' reply s'' here answered
        exact ih reply (calls.2 reply) (kept s' op reply s'' calls.1 here answered)

/-- A handler that simulates every operation simulates the whole program: `R` relates the states of
the two machines, and the surroundings of the second one keep it. -/
theorem wp_interp {Op' : Type} {Reply' : Op' → Type} {τ : Type} {M' : Machine Op' Reply' τ}
    {guard' : τ → Op' → Prop} (R : σ → τ → Prop) (stable : ∀ s, M'.Stable (R s))
    {handler : (op : Op) → Prog Op' Reply' (Reply op)}
    (simulates : ∀ s t op, R s t → guard s op →
      M'.wp guard' (fun reply t' => ∃ s', M.answer s op reply s' ∧ R s' t') (handler op) t)
    {program : Prog Op Reply α} {s : σ} {t : τ} (holds : M.wp guard post program s)
    (related : R s t) :
    M'.wp guard' (fun value t' => ∃ s', post value s' ∧ R s' t') (program.interp handler) t := by
  induction program generalizing s t with
  | done value =>
      have here := holds s .refl
      exact wp_done (stable s) related fun t' related' => ⟨s, here, related'⟩
  | call op next ih =>
      obtain ⟨ready, resume⟩ := holds s .refl
      apply wp_seq (simulates s t op related ready)
      intro reply t' answered
      obtain ⟨s', answer, related'⟩ := answered
      exact ih reply (resume reply s' answer) related'

/-- A machine that only keeps track of the operations called: each one is answered in any way, and
moves the state as `after` says. -/
def track (after : σ → (op : Op) → Reply op → σ) : Machine Op Reply σ where
  answer s op reply s' := s' = after s op reply
  interfere _ _ := False

section Track

variable {after : σ → (op : Op) → Reply op → σ}

theorem track_stable (assertion : σ → Prop) : (track after).Stable assertion :=
  fun _ _ _ impossible => nomatch impossible

theorem track_drift {s s' : σ} (moved : (track after).Drift s s') : s' = s :=
  Stable.drift (track_stable fun s' => s' = s) rfl moved

@[simp] theorem track_done_iff (value : α) (s : σ) :
    (track after).wp guard post (.done value) s ↔ post value s := by
  constructor
  · intro holds
    exact holds s .refl
  · intro holds s' moved
    rw [track_drift moved]
    exact holds

@[simp] theorem track_call_iff (op : Op) (next : Reply op → Prog Op Reply α) (s : σ) :
    (track after).wp guard post (.call op next) s ↔
      guard s op ∧ ∀ reply, (track after).wp guard post (next reply) (after s op reply) := by
  constructor
  · intro holds
    obtain ⟨ready, resume⟩ := holds s .refl
    exact ⟨ready, fun reply => resume reply _ rfl⟩
  · intro holds s' moved
    rw [track_drift moved]
    refine ⟨holds.1, fun reply s'' answered => ?_⟩
    have moved : s'' = after s op reply := answered
    rw [moved]
    exact holds.2 reply

end Track

/-- The machine whose operations are answered only where `cond` holds before the step: its runs
are the runs of `M` whose steps all meet the condition. -/
def restrict (M : Machine Op Reply σ) (cond : σ → Op → Prop) : Machine Op Reply σ where
  answer s op reply s' := cond s op ∧ M.answer s op reply s'
  interfere := M.interfere

theorem Steps.bind {first finish : Prog Op Reply α} {s s' : σ}
    (run : M.Steps (first, s) (finish, s')) (next : α → Prog Op Reply β) :
    M.Steps (first >>= next, s) (finish >>= next, s') := by
  have general : ∀ start stop : Prog Op Reply α × σ, M.Steps start stop →
      M.Steps (start.1 >>= next, start.2) (stop.1 >>= next, stop.2) := by
    intro start stop path
    induction path with
    | refl => exact .refl
    | tail _ last ih =>
        refine ih.tail ?_
        cases last with
        | call answered => exact .call answered
        | interfere moved => exact .interfere moved
  exact general _ _ run

theorem Steps.seq {first : Prog Op Reply α} {next : α → Prog Op Reply β} {value : α} {s s' : σ}
    {finish : Prog Op Reply β × σ} (before : M.Steps (first, s) (.done value, s'))
    (after : M.Steps (next value, s') finish) : M.Steps (first >>= next, s) finish :=
  (before.bind next).trans after

/-- A program that has returned only waits. -/
theorem Steps.done_inv {value result : α} {s s' : σ}
    (run : M.Steps (.done value, s) (.done result, s')) : result = value ∧ M.Drift s s' := by
  have general : ∀ stop : Prog Op Reply α × σ, M.Steps (.done value, s) stop →
      stop.1 = .done value ∧ M.Drift s stop.2 := by
    intro stop path
    induction path with
    | refl => exact ⟨rfl, .refl⟩
    | tail _ last ih =>
        cases last with
        | call answered => cases ih.1
        | interfere moved => exact ⟨ih.1, ih.2.tail moved⟩
  obtain ⟨same, moved⟩ := general _ run
  cases same
  exact ⟨rfl, moved⟩

/-- A run that returns takes the first operation at some point. -/
theorem Steps.call_inv {op : Op} {next : Reply op → Prog Op Reply α} {result : α} {s s' : σ}
    (run : M.Steps (.call op next, s) (.done result, s')) :
    ∃ s₀ reply s₁, M.Drift s s₀ ∧ M.answer s₀ op reply s₁ ∧
      M.Steps (next reply, s₁) (.done result, s') := by
  have general : ∀ start : Prog Op Reply α × σ, M.Steps start (.done result, s') →
      start.1 = .call op next → ∃ s₀ reply s₁, M.Drift start.2 s₀ ∧ M.answer s₀ op reply s₁ ∧
        M.Steps (next reply, s₁) (.done result, s') := by
    intro start path
    induction path using ReflTransGen.head_induction_on with
    | refl => exact fun same => nomatch same
    | head step rest ih =>
        intro same
        cases step with
        | @call _ _ s s₁ reply answered =>
            cases same
            exact ⟨s, reply, s₁, .refl, answered, rest⟩
        | interfere moved =>
            obtain ⟨s₀, reply, s₁, drift, answered, later⟩ := ih same
            exact ⟨s₀, reply, s₁, .head moved drift, answered, later⟩
  exact general _ run rfl

/-- A run of two programs in a row that returns: the first one has returned what the second one
goes on with. -/
theorem Steps.seq_inv {first : Prog Op Reply α} {next : α → Prog Op Reply β} {result : β}
    {s s' : σ} (run : M.Steps (first >>= next, s) (.done result, s')) :
    ∃ value middle, M.Steps (first, s) (.done value, middle) ∧
      M.Steps (next value, middle) (.done result, s') := by
  have general : ∀ start : Prog Op Reply β × σ, M.Steps start (.done result, s') →
      ∀ (first : Prog Op Reply α) (s : σ), start = (first >>= next, s) →
        ∃ value middle, M.Steps (first, s) (.done value, middle) ∧
          M.Steps (next value, middle) (.done result, s') := by
    intro start path
    induction path using ReflTransGen.head_induction_on with
    | refl =>
        intro first s same
        cases first with
        | done value => exact ⟨value, s, .refl, same ▸ .refl⟩
        | call op rest => cases same
    | head step rest ih =>
        intro first s same
        cases first with
        | done value => exact ⟨value, s, .refl, same ▸ .head step rest⟩
        | call op after =>
            cases same
            cases step with
            | call answered =>
                obtain ⟨value, middle, before, later⟩ := ih _ _ rfl
                exact ⟨value, middle, .head (.call answered) before, later⟩
            | interfere moved =>
                obtain ⟨value, middle, before, later⟩ := ih (.call op after) _ rfl
                exact ⟨value, middle, .head (.interfere moved) before, later⟩
  exact general _ run first s rfl

/-- Take one operation's step at the head of a run. -/
theorem Steps.call {op : Op} {next : Reply op → Prog Op Reply α} {s s' : σ} {reply : Reply op}
    {finish : Prog Op Reply α × σ} (answered : M.answer s op reply s')
    (rest : M.Steps (next reply, s') finish) : M.Steps (.call op next, s) finish :=
  .head (.call answered) rest

theorem Steps.perform {op : Op} {next : Reply op → Prog Op Reply β} {s : σ}
    {finish : Prog Op Reply β × σ} (reply : Reply op) (s' : σ) (answered : M.answer s op reply s')
    (rest : M.Steps (next reply, s') finish) : M.Steps (Prog.perform op >>= next, s) finish :=
  Steps.call answered rest

theorem Steps.drift {program : Prog Op Reply α} {s s' : σ} (moved : M.Drift s s') :
    M.Steps (program, s) (program, s') := by
  induction moved with
  | refl => exact .refl
  | tail _ last ih => exact ih.tail (.interfere last)

/-- Some run of the program returns a value that meets the postcondition. -/
def CanReturn (M : Machine Op Reply σ) (post : α → σ → Prop) (program : Prog Op Reply α) (s : σ) :
    Prop :=
  ∃ value s', M.Steps (program, s) (.done value, s') ∧ post value s'

/-- Some run of the program comes to a call that is wanted. -/
def CanCall (M : Machine Op Reply σ) (wanted : σ → Op → Prop) (program : Prog Op Reply α) (s : σ) :
    Prop :=
  ∃ op next s', M.Steps (program, s) (.call op next, s') ∧ wanted s' op

theorem canReturn_done {value : α} {s : σ} (holds : post value s) :
    M.CanReturn post (.done value) s := ⟨value, s, .refl, holds⟩

theorem canReturn_perform {post : β → σ → Prop} {op : Op} {next : Reply op → Prog Op Reply β}
    {s : σ} (reply : Reply op) {s' : σ} (answered : M.answer s op reply s')
    (rest : M.CanReturn post (next reply) s') :
    M.CanReturn post (Prog.perform op >>= next) s := by
  obtain ⟨value, finish, run, holds⟩ := rest
  exact ⟨value, finish, Steps.perform reply s' answered run, holds⟩

theorem canReturn_seq {middle : α → σ → Prop} {post : β → σ → Prop} {first : Prog Op Reply α}
    {next : α → Prog Op Reply β} {s : σ} (before : M.CanReturn middle first s)
    (rest : ∀ value s', middle value s' → M.CanReturn post (next value) s') :
    M.CanReturn post (first >>= next) s := by
  obtain ⟨value, s', run, holds⟩ := before
  obtain ⟨result, finish, later, done⟩ := rest value s' holds
  exact ⟨result, finish, run.seq later, done⟩

theorem canReturn_mono {post' : α → σ → Prop} {program : Prog Op Reply α} {s : σ}
    (can : M.CanReturn post program s) (weaken : ∀ value s', post value s' → post' value s') :
    M.CanReturn post' program s := by
  obtain ⟨value, s', run, holds⟩ := can
  exact ⟨value, s', run, weaken value s' holds⟩

/-- After the return the surroundings can move on. -/
theorem canReturn_drift {post' : α → σ → Prop} {program : Prog Op Reply α} {s : σ}
    (can : M.CanReturn post program s)
    (moves : ∀ value s', post value s' → ∃ s'', M.Drift s' s'' ∧ post' value s'') :
    M.CanReturn post' program s := by
  obtain ⟨value, s', run, here⟩ := can
  obtain ⟨s'', moved, holds⟩ := moves value s' here
  exact ⟨value, s'', run.trans (Steps.drift moved), holds⟩

/-- What holds of every return holds of the one that can be reached. -/
theorem canReturn_and {post' : α → σ → Prop} {program : Prog Op Reply α} {s : σ}
    (can : M.CanReturn post program s) (holds : M.wp guard post' program s) :
    M.CanReturn (fun value s' => post value s' ∧ post' value s') program s := by
  obtain ⟨value, s', run, here⟩ := can
  exact ⟨value, s', run, here, wp_post holds run⟩

/-- A program whose calls are all answered, at once or once the surroundings have moved on, can come
to its end. -/
theorem canReturn_of_wp
    (answered : ∀ s op, guard s op → ∃ s' reply s'', M.Drift s s' ∧ M.answer s' op reply s'')
    {program : Prog Op Reply α} {s : σ} (holds : M.wp guard post program s) :
    M.CanReturn post program s := by
  induction program generalizing s with
  | done value => exact canReturn_done (holds s .refl)
  | call op next ih =>
      obtain ⟨s', reply, s'', moved, answer⟩ := answered s op (holds s .refl).1
      obtain ⟨value, finish, run, here⟩ := ih reply ((holds s' moved).2 reply s'' answer)
      exact ⟨value, finish, (Steps.drift moved).trans (run.head (.call answer)), here⟩

variable {wanted : σ → Op → Prop}

theorem canCall_here {op : Op} {next : Reply op → Prog Op Reply β} {s : σ} (here : wanted s op) :
    M.CanCall wanted (Prog.perform op >>= next) s := ⟨op, next, s, .refl, here⟩

theorem canCall_perform {op : Op} {next : Reply op → Prog Op Reply β} {s : σ} (reply : Reply op)
    {s' : σ} (answered : M.answer s op reply s') (rest : M.CanCall wanted (next reply) s') :
    M.CanCall wanted (Prog.perform op >>= next) s := by
  obtain ⟨last, after, finish, run, holds⟩ := rest
  exact ⟨last, after, finish, Steps.perform reply s' answered run, holds⟩

/-- What a run can come to call is among what the program can call. -/
theorem canCall_allowed {allowed : Op → Prop} {program : Prog Op Reply α} {s : σ}
    (can : M.CanCall wanted program s) (calls : program.Calls allowed) :
    ∃ s' op, allowed op ∧ wanted s' op := by
  obtain ⟨op, after, s', run, here⟩ := can
  have general : ∀ start stop : Prog Op Reply α × σ, M.Steps start stop →
      start.1.Calls allowed → stop.1.Calls allowed := by
    intro start stop path
    induction path with
    | refl => exact id
    | tail _ last ih =>
        intro calls
        have before := ih calls
        cases last with
        | call answered => exact before.2 _
        | interfere moved => exact before
  exact ⟨s', op, (general _ _ run calls).1, here⟩

theorem canCall_bind {first : Prog Op Reply α} {next : α → Prog Op Reply β} {s : σ}
    (can : M.CanCall wanted first s) : M.CanCall wanted (first >>= next) s := by
  obtain ⟨op, after, s', run, holds⟩ := can
  exact ⟨op, _, s', run.bind next, holds⟩

theorem canCall_seq {middle : α → σ → Prop} {first : Prog Op Reply α}
    {next : α → Prog Op Reply β} {s : σ} (before : M.CanReturn middle first s)
    (rest : ∀ value s', middle value s' → M.CanCall wanted (next value) s') :
    M.CanCall wanted (first >>= next) s := by
  obtain ⟨value, s', run, holds⟩ := before
  obtain ⟨op, after, finish, later, here⟩ := rest value s' holds
  exact ⟨op, after, finish, run.seq later, here⟩

/-- The machine without a state: operations reply what they are allowed to, and nothing else
happens. -/
def ofReplies (allow : (op : Op) → Reply op → Prop) : Machine Op Reply Unit where
  answer _ op reply _ := allow op reply
  interfere _ _ := False

theorem ofReplies_stable (allow : (op : Op) → Reply op → Prop) (assertion : Unit → Prop) :
    (ofReplies allow).Stable assertion := fun _ _ _ impossible => nomatch impossible

theorem ofReplies_done {allow : (op : Op) → Reply op → Prop} {guard : Unit → Op → Prop}
    {post : α → Unit → Prop} {value : α} (holds : post value ()) :
    (ofReplies allow).wp guard post (.done value) () := fun _ _ => holds

theorem ofReplies_perform {allow : (op : Op) → Reply op → Prop} {guard : Unit → Op → Prop}
    {post : β → Unit → Prop} {op : Op} {next : Reply op → Prog Op Reply β} (ready : guard () op)
    (resume : ∀ reply, allow op reply → (ofReplies allow).wp guard post (next reply) ()) :
    (ofReplies allow).wp guard post (Prog.perform op >>= next) () :=
  fun _ _ => ⟨ready, fun reply _ allowed => resume reply allowed⟩

theorem ofReplies_canCall {allow : (op : Op) → Reply op → Prop} {wanted : Unit → Op → Prop}
    {op : Op} {next : Reply op → Prog Op Reply β} (reply : Reply op) (allowed : allow op reply)
    (rest : (ofReplies allow).CanCall wanted (next reply) ()) :
    (ofReplies allow).CanCall wanted (Prog.perform op >>= next) () :=
  canCall_perform reply allowed rest

/-- An executable machine: it answers at most one way, and its surroundings make the moves they are
told to make. -/
structure Driver (Op : Type) (Reply : Op → Type) (σ Move : Type) where
  answer : σ → (op : Op) → Option (Reply op × σ)
  interfere : Move → σ → Option σ

variable {Move : Type}

/-- Run under a schedule: `none` lets the program take its next step, a move the surroundings. -/
def Driver.run (D : Driver Op Reply σ Move) : List (Option Move) → Prog Op Reply α × σ →
    Option (Prog Op Reply α × σ)
  | [], config => some config
  | none :: _, (.done _, _) => none
  | none :: rest, (.call op next, s) =>
      match D.answer s op with
      | none => none
      | some (reply, s') => D.run rest (next reply, s')
  | some move :: rest, (program, s) =>
      match D.interfere move s with
      | none => none
      | some s' => D.run rest (program, s')

/-- A driver makes only moves of the machine. -/
structure Driver.Sound (D : Driver Op Reply σ Move) (M : Machine Op Reply σ) : Prop where
  answer : ∀ s op reply s', D.answer s op = some (reply, s') → M.answer s op reply s'
  interfere : ∀ move s s', D.interfere move s = some s' → M.interfere s s'

theorem Driver.Sound.steps {D : Driver Op Reply σ Move} (sound : D.Sound M)
    (schedule : List (Option Move)) (start finish : Prog Op Reply α × σ)
    (ran : D.run schedule start = some finish) : M.Steps start finish := by
  induction schedule generalizing start with
  | nil =>
      cases ran
      exact .refl
  | cons turn rest ih =>
      obtain ⟨program, s⟩ := start
      cases turn with
      | none =>
          cases program with
          | done value => cases ran
          | call op next =>
              simp only [Driver.run] at ran
              split at ran
              · cases ran
              · rename_i reply s' answered
                exact .head (.call (sound.answer s op reply s' answered)) (ih _ ran)
      | some move =>
          simp only [Driver.run] at ran
          split at ran
          · cases ran
          · rename_i s' moved
            exact .head (.interfere (sound.interfere move s s' moved)) (ih _ ran)

/-- Run a program to its end, with the surroundings at rest. -/
def Driver.eval (D : Driver Op Reply σ Move) : Prog Op Reply α → σ → Option (α × σ)
  | .done value, s => some (value, s)
  | .call op next, s =>
      match D.answer s op with
      | none => none
      | some (reply, s') => D.eval (next reply) s'

theorem Driver.eval_perform (D : Driver Op Reply σ Move) {op : Op}
    {next : Reply op → Prog Op Reply α} {s s' : σ} {reply : Reply op}
    (answered : D.answer s op = some (reply, s')) :
    D.eval (Prog.perform op >>= next) s = D.eval (next reply) s' := by
  simp only [Prog.perform_bind, Driver.eval, answered]

theorem Driver.eval_bind (D : Driver Op Reply σ Move) (first : Prog Op Reply α)
    (next : α → Prog Op Reply β) (s : σ) :
    D.eval (first >>= next) s =
      (D.eval first s).bind fun returned => D.eval (next returned.1) returned.2 := by
  induction first generalizing s with
  | done value => rfl
  | call op rest ih =>
      simp only [Prog.call_bind, Driver.eval]
      split
      · rfl
      · exact ih _ _

theorem Driver.Sound.eval {D : Driver Op Reply σ Move} (sound : D.Sound M)
    {program : Prog Op Reply α} {s s' : σ} {value : α}
    (ran : D.eval program s = some (value, s')) : M.Steps (program, s) (.done value, s') := by
  induction program generalizing s with
  | done result =>
      cases ran
      exact .refl
  | call op next ih =>
      simp only [Driver.eval] at ran
      split at ran
      · cases ran
      · rename_i reply middle answered
        exact .call (sound.answer s op reply middle answered) (ih reply ran)

/-- The driver of a restricted machine. -/
def Driver.restrict (D : Driver Op Reply σ Move) (cond : σ → Op → Prop)
    [∀ s op, Decidable (cond s op)] : Driver Op Reply σ Move where
  answer s op := if cond s op then D.answer s op else none
  interfere := D.interfere

theorem Driver.Sound.restrict {D : Driver Op Reply σ Move} (sound : D.Sound M)
    (cond : σ → Op → Prop) [∀ s op, Decidable (cond s op)] :
    (D.restrict cond).Sound (M.restrict cond) where
  answer s op reply s' answered := by
    obtain ⟨met, answered⟩ := Option.ite_none_right_eq_some.mp answered
    exact ⟨met, sound.answer s op reply s' answered⟩
  interfere := sound.interfere

/-! Simulation -/

section Simulation

variable {τ : Type} {M' : Machine Op Reply τ} {guard' : τ → Op → Prop} {post' : α → τ → Prop}
  {R : σ → τ → Prop} {here : τ → Prop}

/-- The second machine can follow every step of the first one. An operation may take the
surroundings along; `here` is what is known of the second machine wherever a run stands. -/
structure Simulates (M : Machine Op Reply σ) (M' : Machine Op Reply τ) (R : σ → τ → Prop)
    (here : τ → Prop) (guard' : τ → Op → Prop) : Prop where
  answer : ∀ s t op reply s', R s t → (∀ t', M'.Drift t t' → guard' t' op) →
    M.answer s op reply s' → ∃ t₁ t', M'.answer t op reply t₁ ∧ M'.Drift t₁ t' ∧ R s' t'
  interfere : ∀ s t s', R s t → here t → M.interfere s s' → ∃ t', M'.Drift t t' ∧ R s' t'

theorem Simulates.drift (sim : Simulates M M' R here guard') {s s' : σ} {t : τ}
    (known : ∀ t', M'.Drift t t' → here t') (related : R s t) (moved : M.Drift s s') :
    ∃ t', M'.Drift t t' ∧ R s' t' := by
  induction moved with
  | refl => exact ⟨t, .refl, related⟩
  | tail _ last ih =>
      obtain ⟨t₁, before, related₁⟩ := ih
      obtain ⟨t₂, after, related₂⟩ := sim.interfere _ _ _ related₁ (known t₁ before) last
      exact ⟨t₂, before.trans after, related₂⟩

/-- What is proved of the runs of the second machine holds, through the relation, of the runs of
the first one. -/
theorem wp_simulated (sim : Simulates M M' R here guard')
    (called : ∀ t op, guard' t op → here t) (returned : ∀ value t, post' value t → here t)
    (grants : ∀ s t op, R s t → guard' t op → guard s op) {program : Prog Op Reply α} {s : σ}
    {t : τ} (holds : M'.wp guard' post' program t) (related : R s t) :
    M.wp guard (fun value s' => ∃ t', R s' t' ∧ post' value t') program s := by
  induction program generalizing s t with
  | done value =>
      intro s' moved
      obtain ⟨t', moved', related'⟩ :=
        sim.drift (fun t' moved' => returned value t' (holds t' moved')) related moved
      exact ⟨t', related', holds t' moved'⟩
  | call op next ih =>
      intro s' moved
      obtain ⟨t', moved', related'⟩ :=
        sim.drift (fun t' moved' => called t' op (holds t' moved').1) related moved
      refine ⟨grants s' t' op related' (holds t' moved').1, fun reply s'' answered => ?_⟩
      obtain ⟨t₁, t₂, answered', later, related₂⟩ := sim.answer s' t' op reply s'' related'
        (fun t₁ later => (holds t₁ (moved'.trans later)).1) answered
      exact ih reply (wp_drift ((holds t' moved').2 reply t₁ answered') later) related₂

/-- The first machine can do whatever the second one does. -/
structure Realizes (M : Machine Op Reply σ) (M' : Machine Op Reply τ) (R : σ → τ → Prop)
    (guard' : τ → Op → Prop) : Prop where
  answer : ∀ s t op reply t', R s t → guard' t op → M'.answer t op reply t' →
    ∃ s', M.answer s op reply s' ∧ R s' t'
  interfere : ∀ s t t', R s t → M'.interfere t t' → ∃ s', M.Drift s s' ∧ R s' t'

/-- A run of the second machine is one of the first, as far as its operations can be realized. -/
theorem Steps.realize (real : Realizes M M' R guard') {program stop : Prog Op Reply α} {t t' : τ}
    (holds : M'.wp guard' post' program t) (run : M'.Steps (program, t) (stop, t')) {s : σ}
    (related : R s t) : ∃ s', M.Steps (program, s) (stop, s') ∧ R s' t' := by
  have general : ∀ finish : Prog Op Reply α × τ, M'.Steps (program, t) finish →
      ∃ s', M.Steps (program, s) (finish.1, s') ∧ R s' finish.2 := by
    intro finish path
    induction path with
    | refl => exact ⟨s, .refl, related⟩
    | tail before last ih =>
        obtain ⟨s₁, run₁, related₁⟩ := ih
        have ready := wp_steps holds before
        cases last with
        | call answered =>
            obtain ⟨s₂, answered', related₂⟩ :=
              real.answer _ _ _ _ _ related₁ (ready _ .refl).1 answered
            exact ⟨s₂, run₁.tail (.call answered'), related₂⟩
        | interfere moved =>
            obtain ⟨s₂, moved', related₂⟩ := real.interfere _ _ _ related₁ moved
            exact ⟨s₂, run₁.trans (Steps.drift moved'), related₂⟩
  exact general _ run

theorem CanCall.realize {wanted : σ → Op → Prop} {wanted' : τ → Op → Prop}
    (real : Realizes M M' R guard')
    {program : Prog Op Reply α} {s : σ} {t : τ} (can : M'.CanCall wanted' program t)
    (holds : M'.wp guard' post' program t) (related : R s t)
    (wants : ∀ s' t' op, R s' t' → wanted' t' op → wanted s' op) : M.CanCall wanted program s := by
  obtain ⟨op, next, t', run, here⟩ := can
  obtain ⟨s', run', related'⟩ := run.realize real holds related
  exact ⟨op, next, s', run', wants s' t' op related' here⟩

end Simulation

end Machine

end Interaction

import AmbaPci.InteractionMachine

set_option autoImplicit false

/- Reduction: a program whose operations commute with the moves of its surroundings ends as if it
had run alone, with the surroundings moving before and after it. -/
namespace Interaction

open Relation (ReflTransGen)

variable {Op : Type} {Reply : Op → Type} {σ α β : Type}

namespace Prog

/-- Early operations, then at most one of any kind, then late operations. -/
def Atomic (early late : Op → Prop) : Prog Op Reply α → Prop
  | done _ => True
  | call op next => (early op ∧ ∀ reply, Atomic early late (next reply)) ∨
      ∀ reply, (next reply).Calls late

variable {early late : Op → Prop}

theorem Atomic.of_calls {program : Prog Op Reply α} (calls : program.Calls early) :
    program.Atomic early late := by
  induction program with
  | done value => trivial
  | call op next ih => exact Or.inl ⟨calls.1, fun reply => ih reply (calls.2 reply)⟩

/-- What comes after early operations decides. -/
theorem Atomic.bind {first : Prog Op Reply α} {next : α → Prog Op Reply β}
    (before : first.Calls early) (after : ∀ value, (next value).Atomic early late) :
    (first >>= next).Atomic early late := by
  induction first with
  | done value => exact after value
  | call op rest ih => exact Or.inl ⟨before.1, fun reply => ih reply (before.2 reply)⟩

theorem Atomic.perform {op : Op} {next : Reply op → Prog Op Reply β} (here : early op)
    (after : ∀ reply, (next reply).Atomic early late) :
    (Prog.perform op >>= next).Atomic early late := Or.inl ⟨here, after⟩

/-- The one operation that need not commute. -/
theorem Atomic.pivot {op : Op} {next : Reply op → Prog Op Reply β}
    (after : ∀ reply, (next reply).Calls late) :
    (Prog.perform op >>= next).Atomic early late := Or.inr after

end Prog

namespace Machine

/-- The same operations, with nothing between two of them. -/
def alone (M : Machine Op Reply σ) : Machine Op Reply σ where
  answer := M.answer
  interfere _ _ := False

/-- A move right after the operation could as well have come before it. -/
def Early (M : Machine Op Reply σ) (op : Op) : Prop :=
  ∀ s reply s₁ s₂, M.answer s op reply s₁ → M.interfere s₁ s₂ →
    ∃ s₀, M.Drift s s₀ ∧ M.answer s₀ op reply s₂

/-- A move right before the operation could as well come after it. -/
def Late (M : Machine Op Reply σ) (op : Op) : Prop :=
  ∀ s s₀ reply s₂, M.interfere s s₀ → M.answer s₀ op reply s₂ →
    ∃ s₁, M.answer s op reply s₁ ∧ M.Drift s₁ s₂

variable {M : Machine Op Reply σ}

theorem Early.drift {op : Op} (early : M.Early op) {s s₁ s₂ : σ} {reply : Reply op}
    (answered : M.answer s op reply s₁) (moved : M.Drift s₁ s₂) :
    ∃ s₀, M.Drift s s₀ ∧ M.answer s₀ op reply s₂ := by
  induction moved with
  | refl => exact ⟨s, .refl, answered⟩
  | tail _ last ih =>
      obtain ⟨s₀, before, there⟩ := ih
      obtain ⟨s₀', more, there'⟩ := early _ _ _ _ there last
      exact ⟨s₀', before.trans more, there'⟩

theorem Late.drift {op : Op} (late : M.Late op) {s s₀ s₂ : σ} {reply : Reply op}
    (moved : M.Drift s s₀) (answered : M.answer s₀ op reply s₂) :
    ∃ s₁, M.answer s op reply s₁ ∧ M.Drift s₁ s₂ := by
  induction moved using ReflTransGen.head_induction_on with
  | refl => exact ⟨s₂, answered, .refl⟩
  | head first _ ih =>
      obtain ⟨s₁, there, after⟩ := ih
      obtain ⟨s₁', there', more⟩ := late _ _ _ _ first there
      exact ⟨s₁', there', more.trans after⟩

variable {early late : Op → Prop}

/-- All moves can wait until a program of late operations has returned. -/
theorem late_runs (commutes : ∀ op, late op → M.Late op) {program : Prog Op Reply α}
    (calls : program.Calls late) {value : α} {s s' : σ}
    (run : M.Steps (program, s) (.done value, s')) :
    ∃ s₂, M.alone.Steps (program, s) (.done value, s₂) ∧ M.Drift s₂ s' := by
  induction program generalizing s with
  | done result =>
      obtain ⟨same, moved⟩ := Steps.done_inv run
      cases same
      exact ⟨s, .refl, moved⟩
  | call op next ih =>
      obtain ⟨s₀, reply, s₁, moved, answered, rest⟩ := Steps.call_inv run
      obtain ⟨s₁', answered', more⟩ := (commutes op calls.1).drift moved answered
      obtain ⟨s₂, ran, after⟩ := ih reply (calls.2 reply) ((Steps.drift more).trans rest)
      exact ⟨s₂, Steps.call answered' ran, after⟩

/-- An atomic program under interference: the moves up to its pivot have come before it, and the
others come after it. -/
theorem atomic_runs (commutesEarly : ∀ op, early op → M.Early op)
    (commutesLate : ∀ op, late op → M.Late op) {program : Prog Op Reply α}
    (atomic : program.Atomic early late) {value : α} {s s' : σ}
    (run : M.Steps (program, s) (.done value, s')) :
    ∃ s₁ s₂, M.Drift s s₁ ∧ M.alone.Steps (program, s₁) (.done value, s₂) ∧ M.Drift s₂ s' := by
  induction program generalizing s with
  | done result =>
      obtain ⟨same, moved⟩ := Steps.done_inv run
      cases same
      exact ⟨s, s, .refl, .refl, moved⟩
  | call op next ih =>
      obtain ⟨s₀, reply, s₁, moved, answered, rest⟩ := Steps.call_inv run
      rcases atomic with ⟨here, after⟩ | calls
      · obtain ⟨s₂, s₃, before, ran, later⟩ := ih reply (after reply) rest
        obtain ⟨s₀', moved', answered'⟩ := (commutesEarly op here).drift answered before
        exact ⟨s₀', s₃, moved.trans moved', Steps.call answered' ran, later⟩
      · obtain ⟨s₂, ran, later⟩ := late_runs commutesLate (calls reply) rest
        exact ⟨s₀, s₂, moved, Steps.call answered ran, later⟩

theorem alone_drift {s s' : σ} (moved : M.alone.Drift s s') : s' = s := by
  induction moved with
  | refl => rfl
  | tail _ last ih => exact last.elim

/-- A run without moves of the surroundings is a run. -/
theorem steps_of_alone {start finish : Prog Op Reply α × σ} (run : M.alone.Steps start finish) :
    M.Steps start finish := by
  induction run with
  | refl => exact .refl
  | tail _ last ih =>
      cases last with
      | call answered => exact ih.tail (.call answered)
      | interfere moved => exact moved.elim

theorem alone_done {value result : α} {s s' : σ}
    (run : M.alone.Steps (.done value, s) (.done result, s')) : result = value ∧ s' = s := by
  obtain ⟨same, moved⟩ := Steps.done_inv run
  exact ⟨same, alone_drift moved⟩

theorem alone_call {op : Op} {next : Reply op → Prog Op Reply α} {value : α} {s s' : σ}
    (run : M.alone.Steps (.call op next, s) (.done value, s')) :
    ∃ reply s₁, M.answer s op reply s₁ ∧ M.alone.Steps (next reply, s₁) (.done value, s') := by
  obtain ⟨s₀, reply, s₁, moved, answered, rest⟩ := Steps.call_inv run
  rw [alone_drift moved] at answered
  exact ⟨reply, s₁, answered, rest⟩

theorem alone_call_iff {op : Op} {next : Reply op → Prog Op Reply α} {value : α} {s s' : σ} :
    M.alone.Steps (.call op next, s) (.done value, s') ↔
      ∃ reply s₁, M.answer s op reply s₁ ∧ M.alone.Steps (next reply, s₁) (.done value, s') := by
  constructor
  · exact alone_call
  · rintro ⟨reply, s₁, answered, rest⟩
    exact Steps.call answered rest

/-- A program run alone returns what it returns when a handler answers for the machine. -/
theorem alone_returns {Op' : Type} {Reply' : Op' → Type}
    {handler : (op : Op) → σ → Prog Op' Reply' (Reply op × σ)}
    {allow : (op : Op') → Reply' op → Prop}
    (handled : ∀ s op reply s', M.answer s op reply s' →
      (handler op s).Returns allow (reply, s'))
    {program : Prog Op Reply α} {value : α} {s s' : σ}
    (run : M.alone.Steps (program, s) (.done value, s')) :
    (program.interpState handler s).Returns allow (value, s') := by
  induction program generalizing s with
  | done result =>
      obtain ⟨same, still⟩ := alone_done run
      cases same
      rw [still]
      exact .done _
  | call op next ih =>
      obtain ⟨reply, s₁, answered, rest⟩ := alone_call run
      exact (Prog.returns_bind_iff _ _ _).mpr
        ⟨(reply, s₁), handled s op reply s₁ answered, ih reply rest⟩

end Machine

end Interaction

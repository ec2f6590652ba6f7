import Mathlib.Logic.Relation

set_option autoImplicit false

/- Programs over an interface of operations. A program is a tree: it has returned a value, or it
calls one operation and goes on with the reply. Nothing here fixes what an operation does. -/
namespace Interaction

inductive Prog (Op : Type) (Reply : Op → Type) (α : Type) : Type
  | done (value : α)
  | call (op : Op) (next : Reply op → Prog Op Reply α)

variable {Op : Type} {Reply : Op → Type} {α β γ : Type}

namespace Prog

def bind (first : Prog Op Reply α) (next : α → Prog Op Reply β) : Prog Op Reply β :=
  match first with
  | done value => next value
  | call op rest => call op fun reply => bind (rest reply) next

instance : Monad (Prog Op Reply) where
  pure := done
  bind := bind

/-- Call one operation and return its reply. -/
def perform (op : Op) : Prog Op Reply (Reply op) := call op done

@[simp] theorem pure_eq_done (value : α) : (pure value : Prog Op Reply α) = done value := rfl

@[simp] theorem done_bind (value : α) (next : α → Prog Op Reply β) :
    (done value >>= next) = next value := rfl

@[simp] theorem call_bind (op : Op) (rest : Reply op → Prog Op Reply α)
    (next : α → Prog Op Reply β) :
    (call op rest >>= next) = call op fun reply => rest reply >>= next := rfl

@[simp] theorem perform_bind (op : Op) (next : Reply op → Prog Op Reply β) :
    (perform op >>= next) = call op next := rfl

theorem bind_assoc (first : Prog Op Reply α) (second : α → Prog Op Reply β)
    (third : β → Prog Op Reply γ) :
    (first >>= second >>= third) = first >>= fun value => second value >>= third := by
  induction first with
  | done value => rfl
  | call op rest ih =>
      simp only [call_bind]
      congr 1
      funext reply
      exact ih reply

/-- The operation a program is about to call. -/
def nextOp : Prog Op Reply α → Option Op
  | done _ => none
  | call op _ => some op

/-- The value a program has returned. -/
def result : Prog Op Reply α → Option α
  | done value => some value
  | call _ _ => none

/-- Every operation a program can ever call is an allowed one. -/
def Calls (allowed : Op → Prop) : Prog Op Reply α → Prop
  | done _ => True
  | call op next => allowed op ∧ ∀ reply, Calls allowed (next reply)

theorem Calls.bind {allowed : Op → Prop} {first : Prog Op Reply α} {next : α → Prog Op Reply β}
    (before : first.Calls allowed) (after : ∀ value, (next value).Calls allowed) :
    (first >>= next).Calls allowed := by
  induction first with
  | done value => exact after value
  | call op rest ih => exact ⟨before.1, fun reply => ih reply (before.2 reply)⟩

theorem calls_anything (program : Prog Op Reply α) : program.Calls fun _ => True := by
  induction program with
  | done value => trivial
  | call op next ih => exact ⟨trivial, ih⟩

theorem Calls.mono {allowed weaker : Op → Prop} {program : Prog Op Reply α}
    (calls : program.Calls allowed) (weaken : ∀ op, allowed op → weaker op) :
    program.Calls weaker := by
  induction program with
  | done value => trivial
  | call op rest ih => exact ⟨weaken op calls.1, fun reply => ih reply (calls.2 reply)⟩

theorem Calls.perform {allowed : Op → Prop} {op : Op} {next : Reply op → Prog Op Reply α}
    (here : allowed op) (after : ∀ reply, (next reply).Calls allowed) :
    (Prog.perform op >>= next).Calls allowed := ⟨here, after⟩

/-- Every value a program can return when each reply is one the interface allows. -/
inductive Returns (allow : (op : Op) → Reply op → Prop) : Prog Op Reply α → α → Prop
  | done (value : α) : Returns allow (done value) value
  | call (op : Op) (next : Reply op → Prog Op Reply α) (reply : Reply op) (value : α)
      (allowed : allow op reply) (rest : Returns allow (next reply) value) :
      Returns allow (call op next) value

section Returns

variable {allow : (op : Op) → Reply op → Prop}

@[simp] theorem returns_done_iff (value result : α) :
    Returns allow (Prog.done value : Prog Op Reply α) result ↔ result = value := by
  constructor
  · intro returned
    cases returned
    rfl
  · rintro rfl
    exact .done _

@[simp] theorem returns_call_iff (op : Op) (next : Reply op → Prog Op Reply α) (value : α) :
    Returns allow (Prog.call op next) value ↔
      ∃ reply, allow op reply ∧ Returns allow (next reply) value := by
  constructor
  · intro returned
    cases returned with
    | call _ _ reply _ allowed rest => exact ⟨reply, allowed, rest⟩
  · rintro ⟨reply, allowed, rest⟩
    exact .call op next reply value allowed rest

theorem returns_bind_iff (first : Prog Op Reply α) (next : α → Prog Op Reply β) (value : β) :
    Returns allow (first >>= next) value ↔
      ∃ middle, Returns allow first middle ∧ Returns allow (next middle) value := by
  induction first with
  | done middle => simp
  | call op rest ih =>
      simp only [call_bind, returns_call_iff, ih]
      constructor
      · rintro ⟨reply, allowed, middle, first, second⟩
        exact ⟨middle, ⟨reply, allowed, first⟩, second⟩
      · rintro ⟨middle, ⟨reply, allowed, first⟩, second⟩
        exact ⟨reply, allowed, middle, first, second⟩

theorem returns_perform_iff (op : Op) (next : Reply op → Prog Op Reply β) (value : β) :
    Returns allow (perform op >>= next) value ↔
      ∃ reply, allow op reply ∧ Returns allow (next reply) value :=
  returns_call_iff op next value

theorem returns_map_iff (program : Prog Op Reply α) (f : α → β) (result : β) :
    Returns allow (program >>= fun value => pure (f value)) result ↔
      ∃ value, Returns allow program value ∧ result = f value := by
  rw [returns_bind_iff]
  constructor
  · rintro ⟨value, before, after⟩
    exact ⟨value, before, (returns_done_iff _ _).mp after⟩
  · rintro ⟨value, before, rfl⟩
    exact ⟨value, before, .done _⟩

/-- A program followed by another, which only has to be looked at for values that can come back. -/
theorem Calls.seq {allowed : Op → Prop} {first : Prog Op Reply α} {next : α → Prog Op Reply β}
    (before : first.Calls allowed)
    (after : ∀ value, Returns (fun _ _ => True) first value → (next value).Calls allowed) :
    (first >>= next).Calls allowed := by
  induction first with
  | done value => exact after value (.done value)
  | call op rest ih =>
      exact ⟨before.1, fun reply => ih reply (before.2 reply) fun value returned =>
        after value (.call op rest reply value trivial returned)⟩

/-- What follows a program matters only for values that can come back. -/
theorem bind_congr_returns {first : Prog Op Reply α} {next later : α → Prog Op Reply β}
    (agree : ∀ value, Returns (fun _ _ => True) first value → next value = later value) :
    (first >>= next) = (first >>= later) := by
  induction first with
  | done value => exact agree value (.done value)
  | call op rest ih =>
      simp only [call_bind]
      congr 1
      funext reply
      exact ih reply fun value returned => agree value (.call op rest reply value trivial returned)

end Returns

/-- Run a program against fixed replies; `none` where an operation has no reply. -/
def eval (answer : (op : Op) → Option (Reply op)) : Prog Op Reply α → Option α
  | done value => some value
  | call op next =>
      match answer op with
      | none => none
      | some reply => eval answer (next reply)

theorem eval_returns {allow : (op : Op) → Reply op → Prop}
    (answer : (op : Op) → Option (Reply op))
    (allowed : ∀ op reply, answer op = some reply → allow op reply)
    (program : Prog Op Reply α) (value : α) (ran : program.eval answer = some value) :
    Returns allow program value := by
  induction program with
  | done result =>
      cases ran
      exact .done value
  | call op next ih =>
      simp only [eval] at ran
      split at ran
      · cases ran
      · rename_i reply answered
        exact .call op next reply value (allowed op reply answered) (ih reply ran)

theorem eval_getD_returns {allow : (op : Op) → Reply op → Prop}
    (answer : (op : Op) → Option (Reply op))
    (allowed : ∀ op reply, answer op = some reply → allow op reply)
    (program : Prog Op Reply α) (otherwise : α) (ran : (program.eval answer).isSome = true) :
    Returns allow program ((program.eval answer).getD otherwise) := by
  obtain ⟨value, found⟩ := Option.isSome_iff_exists.mp ran
  rw [found]
  exact eval_returns answer allowed program value found

/-- Replace every operation by a program over another interface. -/
def interp {Op' : Type} {Reply' : Op' → Type}
    (handler : (op : Op) → Prog Op' Reply' (Reply op)) : Prog Op Reply α → Prog Op' Reply' α
  | done value => done value
  | call op next => handler op >>= fun reply => interp handler (next reply)

theorem interp_bind {Op' : Type} {Reply' : Op' → Type}
    (handler : (op : Op) → Prog Op' Reply' (Reply op)) (first : Prog Op Reply α)
    (next : α → Prog Op Reply β) :
    (first >>= next).interp handler = first.interp handler >>= fun value =>
      (next value).interp handler := by
  induction first with
  | done value => rfl
  | call op rest ih =>
      simp only [call_bind, interp, bind_assoc]
      congr 1
      funext reply
      exact ih reply

theorem Calls.interp {Op' : Type} {Reply' : Op' → Type} {allowed : Op → Prop}
    {allowed' : Op' → Prop} {handler : (op : Op) → Prog Op' Reply' (Reply op)}
    (handled : ∀ op, allowed op → (handler op).Calls allowed') {program : Prog Op Reply α}
    (calls : program.Calls allowed) : (program.interp handler).Calls allowed' := by
  induction program with
  | done value => trivial
  | call op rest ih => exact Calls.bind (handled op calls.1) fun reply => ih reply (calls.2 reply)

/-- The same, with a state that is passed along. -/
def interpState {Op' : Type} {Reply' : Op' → Type} {σ : Type}
    (handler : (op : Op) → σ → Prog Op' Reply' (Reply op × σ)) :
    Prog Op Reply α → σ → Prog Op' Reply' (α × σ)
  | done value, s => done (value, s)
  | call op next, s => handler op s >>= fun answered =>
      interpState handler (next answered.1) answered.2

theorem interpState_bind {Op' : Type} {Reply' : Op' → Type} {σ : Type}
    (handler : (op : Op) → σ → Prog Op' Reply' (Reply op × σ)) (first : Prog Op Reply α)
    (next : α → Prog Op Reply β) (s : σ) :
    (first >>= next).interpState handler s =
      first.interpState handler s >>= fun answered =>
        (next answered.1).interpState handler answered.2 := by
  induction first generalizing s with
  | done value => rfl
  | call op rest ih =>
      simp only [call_bind, interpState, bind_assoc]
      congr 1
      funext answered
      exact ih answered.1 answered.2

end Prog

end Interaction

import Mathlib.Data.Set.Lattice
import Mathlib.Order.CompletePartialOrder
import AmbaPci.InteractionMachine

set_option autoImplicit false

/- Resources that a program acquires, uses and releases by its operations. -/
namespace Interaction

open Relation (ReflTransGen)

variable {Op : Type} {Reply : Op → Type} {R ι α β : Type}

/-- What a reply hands out, what an operation gives back, what it needs, and what must not be held
when it is called. -/
structure Ledger (Op : Type) (Reply : Op → Type) (R : Type) where
  acquires : (op : Op) → Reply op → Set R
  releases : Op → Set R
  uses : Op → Set R
  bars : Op → Set R

namespace Ledger

variable (L : Ledger Op Reply R)

def after (held : Set R) (op : Op) (reply : Reply op) : Set R :=
  (held \ L.releases op) ∪ L.acquires op reply

/-- Nothing is handed out that is held already. -/
def machine : Machine Op Reply (Set R) where
  answer held op reply held' :=
    Disjoint (L.acquires op reply) held ∧ held' = L.after held op reply
  interfere _ _ := False

structure Ready (held : Set R) (op : Op) : Prop where
  used : L.uses op ⊆ held
  released : L.releases op ⊆ held
  barred : Disjoint (L.bars op) held

theorem ready_unlisted {held : Set R} {op : Op} (uses : L.uses op = ∅)
    (releases : L.releases op = ∅) (bars : L.bars op = ∅) : L.Ready held op where
  used := by rw [uses]; exact Set.empty_subset held
  released := by rw [releases]; exact Set.empty_subset held
  barred := by rw [bars]; exact Set.empty_disjoint held

/-- The program uses and releases only what is held then, and ends with holdings as said. -/
def Ensures (post : α → Set R → Prop) (program : Prog Op Reply α) (held : Set R) : Prop :=
  L.machine.wp L.Ready post program held

variable {L} {held : Set R} {post : α → Set R → Prop}

theorem stable (assertion : Set R → Prop) : L.machine.Stable assertion :=
  fun _ _ _ impossible => nomatch impossible

@[simp] theorem ensures_done_iff (value : α) :
    L.Ensures post (.done value) held ↔ post value held := by
  constructor
  · intro holds
    exact holds held .refl
  · intro holds held' moved
    rw [Machine.Stable.drift (stable fun s => s = held) rfl moved]
    exact holds

theorem ensures_done {value : α} (holds : post value held) : L.Ensures post (.done value) held :=
  (ensures_done_iff value).mpr holds

@[simp] theorem ensures_call_iff (op : Op) (next : Reply op → Prog Op Reply α) :
    L.Ensures post (.call op next) held ↔ L.Ready held op ∧
      ∀ reply, Disjoint (L.acquires op reply) held →
        L.Ensures post (next reply) (L.after held op reply) := by
  constructor
  · intro holds
    obtain ⟨ready, resume⟩ := holds held .refl
    exact ⟨ready, fun reply free => resume reply _ ⟨free, rfl⟩⟩
  · intro holds held' moved
    rw [Machine.Stable.drift (stable fun s => s = held) rfl moved]
    refine ⟨holds.1, fun reply held'' answered => ?_⟩
    rw [answered.2]
    exact holds.2 reply answered.1

theorem ensures_perform {post : β → Set R → Prop} {op : Op} {next : Reply op → Prog Op Reply β}
    (ready : L.Ready held op)
    (resume : ∀ reply, Disjoint (L.acquires op reply) held →
      L.Ensures post (next reply) (L.after held op reply)) :
    L.Ensures post (Prog.perform op >>= next) held :=
  (ensures_call_iff op next).mpr ⟨ready, resume⟩

/-! Operations that only use what is held -/

/-- The operation changes nothing, and what it needs is there. -/
structure Borrows (L : Ledger Op Reply R) (held : Set R) (op : Op) : Prop where
  used : L.uses op ⊆ held
  released : L.releases op = ∅
  acquired : ∀ reply, L.acquires op reply = ∅
  barred : L.bars op = ∅

theorem Borrows.ready {op : Op} (borrows : L.Borrows held op) : L.Ready held op where
  used := borrows.used
  released := by rw [borrows.released]; exact Set.empty_subset held
  barred := by rw [borrows.barred]; exact Set.empty_disjoint held

@[simp] theorem Borrows.after {op : Op} (borrows : L.Borrows held op) (reply : Reply op) :
    L.after held op reply = held := by
  rw [Ledger.after, borrows.released, borrows.acquired reply, Set.sdiff_empty, Set.union_empty]

theorem Borrows.mono {op : Op} {more : Set R} (borrows : L.Borrows held op) (inside : held ⊆ more) :
    L.Borrows more op :=
  ⟨borrows.used.trans inside, borrows.released, borrows.acquired, borrows.barred⟩

theorem ensures_borrow {post : β → Set R → Prop} {op : Op} {next : Reply op → Prog Op Reply β}
    (borrows : L.Borrows held op) (resume : ∀ reply, L.Ensures post (next reply) held) :
    L.Ensures post (Prog.perform op >>= next) held :=
  ensures_perform borrows.ready fun reply _ => by
    rw [borrows.after]
    exact resume reply

/-- A program of such operations leaves the holdings as they are. -/
theorem ensures_calls {program : Prog Op Reply α} (calls : program.Calls (L.Borrows held)) :
    L.Ensures (fun value held' => held' = held ∧ Prog.Returns (fun _ _ => True) program value)
      program held := by
  apply Machine.wp_returns
  induction program with
  | done value => exact ensures_done rfl
  | call op next ih =>
      refine (ensures_call_iff op next).mpr ⟨calls.1.ready, fun reply _ => ?_⟩
      rw [calls.1.after]
      exact ih reply (calls.2 reply)

theorem ensures_seq {post : β → Set R → Prop} {middle : α → Set R → Prop}
    {first : Prog Op Reply α} {next : α → Prog Op Reply β} (holds : L.Ensures middle first held)
    (continue' : ∀ value held', middle value held' → L.Ensures post (next value) held') :
    L.Ensures post (first >>= next) held := Machine.wp_seq holds continue'

theorem ensures_calls_seq {post : β → Set R → Prop} {first : Prog Op Reply α}
    {next : α → Prog Op Reply β} (calls : first.Calls (L.Borrows held))
    (continue' : ∀ value, Prog.Returns (fun _ _ => True) first value →
      L.Ensures post (next value) held) : L.Ensures post (first >>= next) held := by
  apply ensures_seq (ensures_calls calls)
  rintro value _ ⟨rfl, returned⟩
  exact continue' value returned

theorem after_same {op : Op} {reply : Reply op} (releases : L.releases op = ∅)
    (acquires : L.acquires op reply = ∅) : L.after held op reply = held := by
  rw [Ledger.after, releases, acquires, Set.sdiff_empty, Set.union_empty]

theorem after_insert {op : Op} {reply : Reply op} {r : R} (releases : L.releases op = ∅)
    (acquires : L.acquires op reply = {r}) : L.after held op reply = insert r held := by
  rw [Ledger.after, releases, acquires, Set.sdiff_empty, Set.union_singleton]

/-- An operation that gives something back. -/
theorem ensures_give {r : R} {put : Op} {next : Reply put → Prog Op Reply α} (fresh : r ∉ held)
    (gives : L.releases put = {r}) (bare : ∀ reply, L.acquires put reply = ∅)
    (uses : L.uses put = ∅) (bars : L.bars put = ∅)
    (continue' : ∀ reply, L.Ensures post (next reply) held) :
    L.Ensures post (Prog.perform put >>= next) (insert r held) := by
  apply ensures_perform
  · refine ⟨?_, ?_, ?_⟩
    · rw [uses]
      exact Set.empty_subset _
    · rw [gives]
      exact Set.singleton_subset_iff.mpr (Set.mem_insert r held)
    · rw [bars]
      exact Set.empty_disjoint _
  · intro reply _
    have back : L.after (insert r held) put reply = held := by
      rw [Ledger.after, gives, bare reply, Set.union_empty, Set.insert_sdiff_self_of_notMem fresh]
    rw [back]
    exact continue' reply

/-- It is given back after a program that leaves the holdings as they are. -/
theorem ensures_bracket {post : β → Set R → Prop} {r : R} {body : Prog Op Reply α} {put : Op}
    {next : α → Reply put → Prog Op Reply β} (fresh : r ∉ held) (gives : L.releases put = {r})
    (bare : ∀ reply, L.acquires put reply = ∅) (uses : L.uses put = ∅) (bars : L.bars put = ∅)
    (holds : L.Ensures (fun _ held' => held' = insert r held) body (insert r held))
    (continue' : ∀ value reply, L.Ensures post (next value reply) held) :
    L.Ensures post (body >>= fun value => Prog.perform put >>= next value) (insert r held) := by
  apply ensures_seq holds
  rintro value _ rfl
  exact ensures_give fresh gives bare uses bars (continue' value)

/-- A program whose every operation is carried out by a handler that does to the holdings what the
operation says does to them what the program says. -/
theorem ensures_interp {Op' : Type} {Reply' : Op' → Type} {L' : Ledger Op' Reply' R}
    {handler : (op : Op) → Prog Op' Reply' (Reply op)}
    (handles : ∀ op held, L.Ready held op →
      L'.Ensures (fun reply held' => Disjoint (L.acquires op reply) held ∧
        held' = L.after held op reply) (handler op) held)
    {program : Prog Op Reply α} (holds : L.Ensures post program held) :
    L'.Ensures post (program.interp handler) held := by
  have simulates : ∀ (s t : Set R) op, t = s → L.Ready s op → L'.machine.wp L'.Ready
      (fun reply t' => ∃ s', L.machine.answer s op reply s' ∧ t' = s') (handler op) t := by
    rintro _ held op rfl ready
    apply Machine.wp_mono (handles op held ready)
    intro reply held' done
    exact ⟨held', done, rfl⟩
  apply Machine.wp_mono
    (Machine.wp_interp (fun s t => t = s) (fun s => stable fun t => t = s) simulates holds rfl)
  rintro value _ ⟨held', here, rfl⟩
  exact here

/-! Whose the holdings are -/

/-- The holdings are a frame, which stays, and one part beside it. -/
structure Accounts (frame own held : Set R) : Prop where
  whole : held = frame ∪ own
  apart : Disjoint frame own

variable {frame own : Set R}

theorem Accounts.frame_subset (accounts : Accounts frame own held) : frame ⊆ held := by
  rw [accounts.whole]
  exact Set.subset_union_left

theorem Accounts.own_subset (accounts : Accounts frame own held) : own ⊆ held := by
  rw [accounts.whole]
  exact Set.subset_union_right

theorem Accounts.acquire {new : Set R} (accounts : Accounts frame own held)
    (free : Disjoint new held) : Accounts frame (own ∪ new) (held ∪ new) where
  whole := by rw [accounts.whole, Set.union_assoc]
  apart := Set.disjoint_union_right.mpr
    ⟨accounts.apart, (free.mono_right accounts.frame_subset).symm⟩

theorem Accounts.release {gone : Set R} (accounts : Accounts frame own held) (mine : gone ⊆ own) :
    Accounts frame (own \ gone) (held \ gone) where
  whole := by
    have untouched : frame \ gone = frame := sdiff_eq_left.mpr (accounts.apart.mono_right mine)
    rw [accounts.whole, Set.union_sdiff_distrib, untouched]
  apart := accounts.apart.mono_right Set.sdiff_subset

/-- Each part of the holdings belongs to one owner, and `common` to none of them. -/
structure Owned (common : Set R) (parts : ι → Set R) (held : Set R) : Prop where
  whole : held = common ∪ ⋃ owner, parts owner
  apart : ∀ owner, Disjoint common (parts owner)
  single : ∀ owner other, owner ≠ other → Disjoint (parts owner) (parts other)

variable {common : Set R} {parts parts' : ι → Set R}

/-- What is given back of the common part is nobody's loss. -/
theorem Owned.release {gone : Set R} (owned : Owned common parts held) (shared : gone ⊆ common) :
    Owned (common \ gone) parts (held \ gone) where
  whole := by
    have untouched : (⋃ owner, parts owner) \ gone = ⋃ owner, parts owner := by
      apply sdiff_eq_left.mpr
      apply Set.disjoint_iUnion_left.mpr
      intro owner
      exact ((owned.apart owner).mono_left shared).symm
    rw [owned.whole, Set.union_sdiff_distrib, untouched]
  apart owner := (owned.apart owner).mono_left Set.sdiff_subset
  single := owned.single

/-- What the other owners hold. -/
def others (parts : ι → Set R) (owner : ι) : Set R := {r | ∃ other, other ≠ owner ∧ r ∈ parts other}

theorem part_subset_others {owner other : ι} (away : other ≠ owner) :
    parts other ⊆ others parts owner := fun _ inside => ⟨other, away, inside⟩

/-- To one owner, what is common and what the others hold is the frame. -/
theorem Owned.split (owned : Owned common parts held) (owner : ι) :
    Accounts (common ∪ others parts owner) (parts owner) held where
  whole := by
    rw [owned.whole]
    ext r
    simp only [Set.mem_union, Set.mem_iUnion, others, Set.mem_ofPred_eq]
    constructor
    · rintro (shared | ⟨other, inside⟩)
      · exact Or.inl (Or.inl shared)
      · by_cases same : other = owner
        · exact Or.inr (same ▸ inside)
        · exact Or.inl (Or.inr ⟨other, same, inside⟩)
    · rintro ((shared | ⟨other, -, inside⟩) | inside)
      · exact Or.inl shared
      · exact Or.inr ⟨other, inside⟩
      · exact Or.inr ⟨owner, inside⟩
  apart := by
    apply Set.disjoint_union_left.mpr
    constructor
    · exact owned.apart owner
    · rw [Set.disjoint_left]
      rintro r ⟨other, away, inside⟩ here
      exact Set.disjoint_left.mp (owned.single other owner away) inside here

/-- One owner's part changes, and the others keep theirs. -/
theorem Owned.join {held' : Set R} (owned : Owned common parts held) (owner : ι)
    (same : ∀ other, other ≠ owner → parts' other = parts other)
    (accounts : Accounts (common ∪ others parts owner) (parts' owner) held') :
    Owned common parts' held' where
  whole := by
    rw [accounts.whole]
    ext r
    simp only [Set.mem_union, Set.mem_iUnion, others, Set.mem_ofPred_eq]
    constructor
    · rintro ((shared | ⟨other, away, inside⟩) | inside)
      · exact Or.inl shared
      · exact Or.inr ⟨other, (same other away) ▸ inside⟩
      · exact Or.inr ⟨owner, inside⟩
    · rintro (shared | ⟨other, inside⟩)
      · exact Or.inl (Or.inl shared)
      · by_cases here : other = owner
        · exact Or.inr (here ▸ inside)
        · exact Or.inl (Or.inr ⟨other, here, (same other here) ▸ inside⟩)
  apart other := by
    by_cases here : other = owner
    · rw [here]
      exact (Set.disjoint_union_left.mp accounts.apart).1
    · rw [same other here]
      exact owned.apart other
  single other another apart := by
    have new := (Set.disjoint_union_left.mp accounts.apart).2
    by_cases first : other = owner
    · have second : another ≠ owner := fun there => apart (first.trans there.symm)
      rw [same another second, first]
      exact (new.mono_left (part_subset_others second)).symm
    · by_cases second : another = owner
      · rw [same other first, second]
        exact new.mono_left (part_subset_others first)
      · rw [same other first, same another second]
        exact owned.single other another apart

end Ledger

end Interaction

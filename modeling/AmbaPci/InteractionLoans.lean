import Mathlib.Data.Set.Card
import AmbaPci.InteractionLedger
import AmbaPci.InteractionPool

set_option autoImplicit false

/- Loans that many threads take and give back: what is out is what the threads hold. -/
namespace Interaction

variable {Tid Op : Type} {Reply : Op → Type} {R σ α : Type}

namespace Ledger

variable (L : Ledger Op Reply R)

/-- One operation as those who lend see it: how often each thing is out before and after it. -/
structure Counts (op : Op) (reply : Reply op) (before after : R → Nat) : Prop where
  acquired : ∀ r ∈ L.acquires op reply, after r = before r + 1
  released : ∀ r ∈ L.releases op, after r = before r - 1
  kept : ∀ r, r ∉ L.acquires op reply → r ∉ L.releases op → after r = before r

/-- Each thread has its own holdings and ends with nothing, and as many things are out as threads
hold one. -/
structure Lent (pool : Pool Tid Op Reply σ α) (holdings : Tid → Set R) (count : R → Nat) :
    Prop where
  threads : ∀ tid, L.Ensures (fun _ held => held = ∅) (pool.threads tid) (holdings tid)
  counted : ∀ r, ∃ holders : Finset Tid, (∀ tid, tid ∈ holders ↔ r ∈ holdings tid) ∧
    holders.card = count r

variable {L} {pool : Pool Tid Op Reply σ α} {holdings : Tid → Set R} {count count' : R → Nat}
variable {tid : Tid} {op : Op} {next : Reply op → Prog Op Reply α} {reply : Reply op} {r : R}

theorem Lent.ready (lent : L.Lent pool holdings count) (turn : pool.threads tid = .call op next) :
    L.Ready (holdings tid) op := by
  have here := lent.threads tid
  rw [turn] at here
  exact ((ensures_call_iff op next).mp here).1

theorem Lent.positive (lent : L.Lent pool holdings count) (held : r ∈ holdings tid) :
    0 < count r := by
  obtain ⟨holders, member, card⟩ := lent.counted r
  rw [← card]
  exact Finset.card_pos.mpr ⟨tid, (member tid).mpr held⟩

theorem Lent.encard (lent : L.Lent pool holdings count) (r : R) :
    {tid | r ∈ holdings tid}.encard = count r := by
  obtain ⟨holders, member, card⟩ := lent.counted r
  have same : {tid | r ∈ holdings tid} = holders := Set.ext fun tid => (member tid).symm
  rw [same, Set.encard_coe_eq_coe_finsetCard, card]

/-- A thread that has returned holds nothing. -/
theorem Lent.returned (lent : L.Lent pool holdings count) {value : α}
    (done : pool.threads tid = .done value) : holdings tid = ∅ := by
  have here := lent.threads tid
  rw [done] at here
  exact (ensures_done_iff value).mp here

theorem Lent.move (lent : L.Lent pool holdings count) (s : σ) :
    L.Lent { pool with shared := s } holdings count :=
  ⟨lent.threads, lent.counted⟩

variable [DecidableEq Tid]

theorem Lent.start (lent : L.Lent pool holdings count) {program : Prog Op Reply α} {value : α}
    (idle : pool.threads tid = .done value)
    (ensures : L.Ensures (fun _ held => held = ∅) program ∅) (s : σ) :
    L.Lent (pool.resume tid program s) holdings count where
  threads other := by
    by_cases same : other = tid
    · rw [same, Pool.resume_same, lent.returned idle]
      exact ensures
    · rw [Pool.resume_other same]
      exact lent.threads other
  counted := lent.counted

/-- The step lemma: an operation changes its own thread's holdings, and the counts with them. -/
theorem Lent.call (lent : L.Lent pool holdings count) (turn : pool.threads tid = .call op next)
    (barred : L.acquires op reply ⊆ L.bars op) (counts : L.Counts op reply count count') (s : σ) :
    L.Lent (pool.resume tid (next reply) s)
      (Function.update holdings tid (L.after (holdings tid) op reply)) count' where
  threads other := by
    by_cases same : other = tid
    · rw [same, Pool.resume_same, Function.update_self]
      have here := lent.threads tid
      rw [turn] at here
      obtain ⟨ready, resume⟩ := (ensures_call_iff op next).mp here
      exact resume reply (ready.barred.mono_left barred)
    · rw [Pool.resume_other same, Function.update_of_ne same]
      exact lent.threads other
  counted r := by
    obtain ⟨holders, member, card⟩ := lent.counted r
    have ready := lent.ready turn
    have others : ∀ other, other ≠ tid → (other ∈ holders ↔
        r ∈ Function.update holdings tid (L.after (holdings tid) op reply) other) := by
      intro other apart
      rw [Function.update_of_ne apart]
      exact member other
    by_cases taken : r ∈ L.acquires op reply
    · have absent : tid ∉ holders := by
        intro inside
        exact Set.disjoint_left.mp ready.barred (barred taken) ((member tid).mp inside)
      refine ⟨insert tid holders, fun other => ?_, ?_⟩
      · by_cases same : other = tid
        · rw [same, Function.update_self]
          exact iff_of_true (Finset.mem_insert_self tid holders) (Or.inr taken)
        · rw [Finset.mem_insert, ← others other same]
          exact or_iff_right same
      · rw [Finset.card_insert_of_notMem absent, card, counts.acquired r taken]
    · by_cases given : r ∈ L.releases op
      · have here : tid ∈ holders := (member tid).mpr (ready.released given)
        refine ⟨holders.erase tid, fun other => ?_, ?_⟩
        · by_cases same : other = tid
          · rw [same, Function.update_self]
            apply iff_of_false (Finset.notMem_erase tid holders)
            rintro (kept | new)
            · exact kept.2 given
            · exact taken new
          · rw [Finset.mem_erase, ← others other same]
            exact and_iff_right same
        · rw [Finset.card_erase_of_mem here, card, counts.released r given]
      · refine ⟨holders, fun other => ?_, ?_⟩
        · by_cases same : other = tid
          · rw [same, Function.update_self, member tid, Ledger.after]
            constructor
            · exact fun held => Or.inl ⟨held, given⟩
            · rintro (kept | new)
              · exact kept.1
              · exact absurd new taken
          · exact others other same
        · rw [card, counts.kept r taken given]

end Ledger

end Interaction

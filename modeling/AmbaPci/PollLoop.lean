import Mathlib.Order.Monotone.Basic

set_option autoImplicit false

/- A loop that tests in each pass whether its time is up, and if not, samples a condition. -/
namespace PollLoop

/-- The loop from pass `pass` on, followed for `fuel` passes: whether it ends with the condition
met or gives up, and in which pass. -/
def run (expired met : Nat → Bool) : Nat → Nat → Option (Bool × Nat)
  | 0, _ => none
  | fuel + 1, pass =>
      if expired pass then some (false, pass)
      else if met pass then some (true, pass)
      else run expired met fuel (pass + 1)

/-- In the passes before `stop` there was time left and the condition was missed. -/
def WaitsUntil (expired met : Nat → Bool) (stop : Nat) : Prop :=
  ∀ pass < stop, expired pass = false ∧ met pass = false

variable {expired met : Nat → Bool}

theorem WaitsUntil.succ {stop : Nat} (waits : WaitsUntil expired met stop)
    (early : expired stop = false) (missed : met stop = false) :
    WaitsUntil expired met (stop + 1) := by
  intro pass before
  by_cases here : pass = stop
  · rw [here]
    exact ⟨early, missed⟩
  · exact waits pass (by omega)

/-- A pass that would end the loop is not one that it has waited through. -/
theorem WaitsUntil.le {stop pass : Nat} (waits : WaitsUntil expired met stop)
    (ends : expired pass = true ∨ met pass = true) : stop ≤ pass := by
  apply Nat.le_of_not_lt
  intro before
  have waited := waits pass before
  simp [waited.1, waited.2] at ends

/-- The loop gives up in the first pass whose test fails, when every sample before it missed. -/
theorem run_gives_up_iff (fuel start stop : Nat) (waited : WaitsUntil expired met start) :
    run expired met fuel start = some (false, stop) ↔
      start ≤ stop ∧ stop < start + fuel ∧ expired stop = true ∧ WaitsUntil expired met stop := by
  induction fuel generalizing start with
  | zero =>
      constructor
      · intro ran
        cases ran
      · intro given
        omega
  | succ fuel ih =>
      cases expiry : expired start with
      | true =>
          simp only [run, expiry, ↓reduceIte, Option.some.injEq, Prod.mk.injEq, true_and]
          constructor
          · intro same
            subst same
            exact ⟨Nat.le_refl _, by omega, expiry, waited⟩
          · intro given
            exact Nat.le_antisymm given.1 (given.2.2.2.le (Or.inl expiry))
      | false =>
          cases hit : met start with
          | true =>
              simp only [run, expiry, hit, Bool.false_eq_true, ↓reduceIte, Option.some.injEq,
                Prod.mk.injEq, false_and, Bool.true_eq_false, false_iff]
              intro given
              obtain ⟨low, -, last, waits⟩ := given
              have same := Nat.le_antisymm low (waits.le (Or.inr hit))
              rw [← same, expiry] at last
              cases last
          | false =>
              simp only [run, expiry, hit, Bool.false_eq_true, ↓reduceIte]
              rw [ih (start + 1) (waited.succ expiry hit)]
              constructor
              · intro given
                obtain ⟨low, high, last, waits⟩ := given
                exact ⟨by omega, by omega, last, waits⟩
              · intro given
                obtain ⟨low, high, last, waits⟩ := given
                have apart : start ≠ stop := by
                  intro same
                  rw [← same, expiry] at last
                  cases last
                exact ⟨by omega, by omega, last, waits⟩

/-- Whenever the loop would give up, its last sample was taken at the deadline or later. -/
def LastSampleLate (expired met : Nat → Bool) (sampleTime : Nat → Nat) (deadline : Nat) : Prop :=
  ∀ stop, expired stop = true → WaitsUntil expired met stop →
    ∃ last, stop = last + 1 ∧ deadline ≤ sampleTime last

/-- As time only moves forward, some sample is late exactly when the last one is. -/
theorem late_sample_iff {sampleTime : Nat → Nat} (forward : Monotone sampleTime) (deadline : Nat) :
    (∀ fuel stop, run expired met fuel 0 = some (false, stop) →
      ∃ pass < stop, deadline ≤ sampleTime pass) ↔
    LastSampleLate expired met sampleTime deadline := by
  have start : WaitsUntil expired met 0 := fun pass before => absurd before (Nat.not_lt_zero pass)
  constructor
  · intro late stop expiry waits
    have ran := (run_gives_up_iff (stop + 1) 0 stop start).mpr
      ⟨Nat.zero_le _, by omega, expiry, waits⟩
    obtain ⟨pass, before, here⟩ := late (stop + 1) stop ran
    refine ⟨stop - 1, by omega, ?_⟩
    have later : sampleTime pass ≤ sampleTime (stop - 1) := forward (by omega)
    omega
  · intro late fuel stop ran
    obtain ⟨-, -, expiry, waits⟩ := (run_gives_up_iff fuel 0 stop start).mp ran
    obtain ⟨last, rfl, here⟩ := late stop expiry waits
    exact ⟨last, Nat.lt_succ_self last, here⟩

end PollLoop

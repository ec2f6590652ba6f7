import AmbaPci.InteractionMachine
import AmbaPci.PollLoop
import AmbaPci.Transfer
import Mathlib.Data.List.Nodup

set_option autoImplicit false

/- When the two polling loops of the ring report a timeout. -/
namespace AmbaPci

open Interaction Interaction.Machine

/-- What a polling thread sees: `jiffies` at each of its steps, as an integer that never goes back,
and the registers. -/
structure PollTrace where
  clock : Nat → Nat
  forward : Monotone clock
  register : Nat → Nat → BitVec 32

/-- The thread's steps so far, and its register reads, each with its step. -/
structure PollState where
  step : Nat := 0
  reads : List (Nat × Nat) := []
  deriving DecidableEq, Repr

/-- Every operation of the thread is one step of the trace. -/
def PollTrace.driver (trace : PollTrace) :
    Machine.Driver Op Op.Reply PollState Empty where
  answer s op :=
    match op with
    | .jiffies => some (BitVec.ofNat 64 (trace.clock s.step), { s with step := s.step + 1 })
    | .readl _ _ off =>
        some (trace.register s.step off, ⟨s.step + 1, s.reads ++ [(s.step, off)]⟩)
    | .usleepRange => some ((), { s with step := s.step + 1 })
    | _ => none
  interfere move _ := nomatch move

/-- What a loop waits for: the registers that one sample reads, in their order, and the test of
their values. -/
structure Awaited where
  offs : List Nat
  met : List (BitVec 32) → Bool
  distinct : offs.Nodup
  some : offs ≠ []

def waitU32Awaited (off : Nat) (want : BitVec 32) (equal : Bool) : Awaited where
  offs := [off]
  met values := if equal then values = [want] else values ≠ [want]
  distinct := by simp
  some := List.cons_ne_nil _ _

def xferPollAwaited : Awaited where
  offs := [rhUsedOff, rhNumOff, rhAvailOff]
  met
    | [used, num, avail] => used + num = avail
    | _ => false
  distinct := by decide
  some := List.cons_ne_nil _ _

/-- Pass `pass` of a loop starts with its deadline test in this step; the step after it is the
first of its sample, and a sleep ends the pass. -/
def Awaited.testStep (awaited : Awaited) (pass : Nat) : Nat :=
  1 + pass * (awaited.offs.length + 2)

def Awaited.sampleStep (awaited : Awaited) (pass : Nat) : Nat := awaited.testStep pass + 1

/-- The values of a sample that starts in a step. -/
def PollTrace.values (trace : PollTrace) (awaited : Awaited) (step : Nat) : List (BitVec 32) :=
  awaited.offs.mapIdx fun index off => trace.register (step + index) off

/-- A sample that started in this step has been taken. -/
def Awaited.Sampled (awaited : Awaited) (s : PollState) (step : Nat) : Prop :=
  ∀ index (inside : index < awaited.offs.length), (step + index, awaited.offs[index]) ∈ s.reads

/-- The deadline as an integer. -/
def PollTrace.deadline (trace : PollTrace) (hz timeoutMs : Nat) : Nat :=
  trace.clock 0 + (Timing.msecsToJiffies ⟨hz, 0⟩ timeoutMs).toNat

/-- What is asked of a polling function, followed for any number of passes. A timeout rests on a
sample that found the condition false, all of it taken at the deadline or later; so a condition that
holds at all times from one before the deadline on is never reported as a timeout. -/
structure NeverSpurious (trace : PollTrace) (awaited : Awaited) (deadline : Nat)
    (program : Nat → Host Int) : Prop where
  late : ∀ polls s, trace.driver.eval (program polls) {} = some (-etimedout, s) →
    ∃ step, awaited.Sampled s step ∧ awaited.met (trace.values awaited step) = false ∧
      deadline ≤ trace.clock step
  kept : ∀ since < deadline,
    (∀ step, since ≤ trace.clock step → awaited.met (trace.values awaited step) = true) →
      ∀ polls s, trace.driver.eval (program polls) {} ≠ some (-etimedout, s)

/-- The deadline test of a pass. -/
def PollTrace.expired (trace : PollTrace) (awaited : Awaited) (hz timeoutMs pass : Nat) : Bool :=
  !timeBefore (BitVec.ofNat 64 (trace.clock (awaited.testStep pass)))
    (BitVec.ofNat 64 (trace.clock 0) + Timing.msecsToJiffies ⟨hz, 0⟩ timeoutMs)

/-- The sample of a pass. -/
def PollTrace.met (trace : PollTrace) (awaited : Awaited) (pass : Nat) : Bool :=
  awaited.met (trace.values awaited (awaited.sampleStep pass))

/-! The loops -/

/-- The reads of the samples of the first passes. -/
def Awaited.reads (awaited : Awaited) (passes : Nat) : List (Nat × Nat) :=
  (List.range passes).flatMap fun pass =>
    awaited.offs.mapIdx fun index off => (awaited.sampleStep pass + index, off)

theorem Awaited.reads_succ (awaited : Awaited) (passes : Nat) :
    awaited.reads (passes + 1) = awaited.reads passes ++
      awaited.offs.mapIdx fun index off => (awaited.sampleStep passes + index, off) := by
  simp [Awaited.reads, List.range_succ]

theorem Awaited.testStep_succ (awaited : Awaited) (pass : Nat) :
    awaited.testStep (pass + 1) = awaited.sampleStep pass + awaited.offs.length + 1 := by
  unfold sampleStep testStep
  rw [Nat.succ_mul]
  omega

/-- How a function that ended in a pass returns, and leaves the trace. -/
def Awaited.ended (awaited : Awaited) : Bool × Nat → Int × PollState
  | (true, pass) =>
      (0, ⟨awaited.sampleStep pass + awaited.offs.length, awaited.reads (pass + 1)⟩)
  | (false, pass) => (-etimedout, ⟨awaited.sampleStep pass, awaited.reads pass⟩)

/-- A loop whose passes test the deadline, sample and sleep in this order runs as the abstract loop
does. -/
theorem pollLoop_eval (awaited : Awaited) {trace : PollTrace} {hz timeoutMs : Nat}
    {loop : Nat → Host Int} (unfollowed : ∀ s, trace.driver.eval (loop 0) s = none)
    (passes : ∀ polls pass,
      trace.driver.eval (loop (polls + 1)) ⟨awaited.testStep pass, awaited.reads pass⟩ =
        if trace.expired awaited hz timeoutMs pass then some (awaited.ended (false, pass))
        else if trace.met awaited pass then some (awaited.ended (true, pass))
        else trace.driver.eval (loop polls)
          ⟨awaited.testStep (pass + 1), awaited.reads (pass + 1)⟩) (polls pass : Nat) :
    trace.driver.eval (loop polls) ⟨awaited.testStep pass, awaited.reads pass⟩ =
      (PollLoop.run (trace.expired awaited hz timeoutMs) (trace.met awaited) polls pass).map
        awaited.ended := by
  induction polls generalizing pass with
  | zero => exact unfollowed _
  | succ polls ih =>
      rw [passes, ih (pass + 1), PollLoop.run]
      by_cases expiry : trace.expired awaited hz timeoutMs pass = true
      · rw [if_pos expiry, if_pos expiry, Option.map_some]
      · rw [if_neg expiry, if_neg expiry]
        by_cases met : trace.met awaited pass = true
        · rw [if_pos met, if_pos met, Option.map_some]
        · rw [if_neg met, if_neg met]

theorem PollTrace.expired_iff (trace : PollTrace) (awaited : Awaited) (hz timeoutMs pass : Nat) :
    trace.expired awaited hz timeoutMs pass = true ↔
      ¬ timeBefore (BitVec.ofNat 64 (trace.clock (awaited.testStep pass)))
        (BitVec.ofNat 64 (trace.clock 0) + Timing.msecsToJiffies ⟨hz, 0⟩ timeoutMs) = true := by
  simp [PollTrace.expired]

theorem waitU32_met_iff (trace : PollTrace) (off : Nat) (want : BitVec 32) (equal : Bool)
    (pass : Nat) :
    trace.met (waitU32Awaited off want equal) pass = true ↔
      if equal then
        trace.register ((waitU32Awaited off want equal).sampleStep pass) off = want
      else trace.register ((waitU32Awaited off want equal).sampleStep pass) off ≠ want := by
  cases equal with
  | true => simp [PollTrace.met, PollTrace.values, waitU32Awaited]
  | false => simp [PollTrace.met, PollTrace.values, waitU32Awaited]

theorem pcieRingWaitLoop_pass (trace : PollTrace) (hz timeoutMs : Nat) (base : Mapping) (off : Nat)
    (want : BitVec 32) (equal : Bool) (polls pass : Nat) :
    trace.driver.eval (pcieRingWaitLoop base off want equal
        (BitVec.ofNat 64 (trace.clock 0) + Timing.msecsToJiffies ⟨hz, 0⟩ timeoutMs) (polls + 1))
      ⟨(waitU32Awaited off want equal).testStep pass,
        (waitU32Awaited off want equal).reads pass⟩ =
    if trace.expired (waitU32Awaited off want equal) hz timeoutMs pass then
      some ((waitU32Awaited off want equal).ended (false, pass))
    else if trace.met (waitU32Awaited off want equal) pass then
      some ((waitU32Awaited off want equal).ended (true, pass))
    else trace.driver.eval (pcieRingWaitLoop base off want equal
        (BitVec.ofNat 64 (trace.clock 0) + Timing.msecsToJiffies ⟨hz, 0⟩ timeoutMs) polls)
      ⟨(waitU32Awaited off want equal).testStep (pass + 1),
        (waitU32Awaited off want equal).reads (pass + 1)⟩ := by
  have hit := waitU32_met_iff trace off want equal pass
  have expired := trace.expired_iff (waitU32Awaited off want equal) hz timeoutMs pass
  rw [pcieRingWaitLoop, Driver.eval_perform _ rfl, Awaited.testStep_succ, Awaited.reads_succ]
  by_cases expiry : trace.expired (waitU32Awaited off want equal) hz timeoutMs pass = true
  · rw [if_pos expiry, if_neg (expired.mp expiry)]
    rfl
  · have early := Decidable.not_not.mp (expired.not.mp expiry)
    rw [if_neg expiry, if_pos early, pcieRingR32, Driver.eval_perform _ rfl]
    by_cases met : trace.met (waitU32Awaited off want equal) pass = true
    · have sampled := hit.mp met
      unfold Awaited.sampleStep at sampled
      rw [if_pos met, if_pos sampled, Awaited.ended, Awaited.reads_succ]
      rfl
    · have missed := hit.not.mp met
      unfold Awaited.sampleStep at missed
      rw [if_neg met, if_neg missed, Driver.eval_perform _ rfl]
      rfl

theorem xferPoll_met_iff (trace : PollTrace) (pass : Nat) :
    trace.met xferPollAwaited pass = true ↔
      trace.register (xferPollAwaited.sampleStep pass) rhUsedOff +
        trace.register (xferPollAwaited.sampleStep pass + 1) rhNumOff =
          trace.register (xferPollAwaited.sampleStep pass + 2) rhAvailOff := by
  simp [PollTrace.met, PollTrace.values, xferPollAwaited]

theorem pcieRingPollLoop_pass (trace : PollTrace) (hz timeoutMs : Nat) (base : Mapping)
    (polls pass : Nat) :
    trace.driver.eval (pcieRingPollLoop base
        (BitVec.ofNat 64 (trace.clock 0) + Timing.msecsToJiffies ⟨hz, 0⟩ timeoutMs) (polls + 1))
      ⟨xferPollAwaited.testStep pass, xferPollAwaited.reads pass⟩ =
    if trace.expired xferPollAwaited hz timeoutMs pass then
      some (xferPollAwaited.ended (false, pass))
    else if trace.met xferPollAwaited pass then some (xferPollAwaited.ended (true, pass))
    else trace.driver.eval (pcieRingPollLoop base
        (BitVec.ofNat 64 (trace.clock 0) + Timing.msecsToJiffies ⟨hz, 0⟩ timeoutMs) polls)
      ⟨xferPollAwaited.testStep (pass + 1), xferPollAwaited.reads (pass + 1)⟩ := by
  have hit := xferPoll_met_iff trace pass
  have expired := trace.expired_iff xferPollAwaited hz timeoutMs pass
  have joined : xferPollAwaited.reads (pass + 1) = xferPollAwaited.reads pass ++
      [(xferPollAwaited.sampleStep pass, rhUsedOff)] ++
      [(xferPollAwaited.sampleStep pass + 1, rhNumOff)] ++
      [(xferPollAwaited.sampleStep pass + 2, rhAvailOff)] := by
    simp [Awaited.reads_succ, xferPollAwaited]
  rw [pcieRingPollLoop, Driver.eval_perform _ rfl, Awaited.testStep_succ, joined]
  by_cases expiry : trace.expired xferPollAwaited hz timeoutMs pass = true
  · rw [if_pos expiry, if_neg (expired.mp expiry)]
    rfl
  · have early := Decidable.not_not.mp (expired.not.mp expiry)
    rw [if_neg expiry, if_pos early, pcieRingR32, Driver.eval_perform _ rfl, pcieRingR32,
      Driver.eval_perform _ rfl, pcieRingR32, Driver.eval_perform _ rfl]
    by_cases met : trace.met xferPollAwaited pass = true
    · have sampled := hit.mp met
      unfold Awaited.sampleStep at sampled
      rw [if_pos met, if_pos sampled, Awaited.ended, joined]
      rfl
    · have missed := hit.not.mp met
      unfold Awaited.sampleStep at missed
      rw [if_neg met, if_neg missed, Driver.eval_perform _ rfl]
      rfl

/-! Timeouts -/

theorem Awaited.sampleStep_mono (awaited : Awaited) : Monotone awaited.sampleStep := by
  intro first second before
  have scaled := Nat.mul_le_mul_right (awaited.offs.length + 2) before
  unfold sampleStep testStep
  omega

/-- The reads of a pass are a sample. -/
theorem Awaited.sampled_of_lt (awaited : Awaited) {pass passes : Nat} (before : pass < passes)
    (step : Nat) : awaited.Sampled ⟨step, awaited.reads passes⟩ (awaited.sampleStep pass) := by
  intro index inside
  apply List.mem_flatMap.mpr
  refine ⟨pass, List.mem_range.mpr before, ?_⟩
  apply List.mem_mapIdx.mpr
  exact ⟨index, inside, rfl⟩

/-- Every sample is that of a pass. -/
theorem Awaited.pass_of_sampled (awaited : Awaited) {passes step sampled : Nat}
    (taken : awaited.Sampled ⟨step, awaited.reads passes⟩ sampled) :
    ∃ pass < passes, sampled = awaited.sampleStep pass := by
  have some : 0 < awaited.offs.length := List.length_pos_iff.mpr awaited.some
  obtain ⟨pass, inside, here⟩ := List.mem_flatMap.mp (taken 0 some)
  obtain ⟨index, small, same⟩ := List.mem_mapIdx.mp here
  simp only [Prod.mk.injEq] at same
  have first : index = 0 := (List.Nodup.getElem_inj_iff awaited.distinct).mp same.2
  exact ⟨pass, List.mem_range.mp inside, by omega⟩

/-- Whenever a deadline test fails with no sample met before it, the clock had reached the deadline
between the test before it, which passed, and the first register read that followed. -/
def DeadlineMeetsSample (trace : PollTrace) (awaited : Awaited) (hz timeoutMs : Nat) : Prop :=
  PollLoop.LastSampleLate (trace.expired awaited hz timeoutMs) (trace.met awaited)
    (fun pass => trace.clock (awaited.sampleStep pass)) (trace.deadline hz timeoutMs)

section Timeouts

variable {trace : PollTrace} {awaited : Awaited} {hz timeoutMs : Nat} {program : Nat → Host Int}

/-- A function that polls so times out in the pass in which its loop gives up. -/
theorem timedOut_iff
    (evals : ∀ polls, trace.driver.eval (program polls) {} =
      (PollLoop.run (trace.expired awaited hz timeoutMs) (trace.met awaited) polls 0).map
        awaited.ended) (polls : Nat) (s : PollState) :
    trace.driver.eval (program polls) {} = some (-etimedout, s) ↔
      ∃ stop, PollLoop.run (trace.expired awaited hz timeoutMs) (trace.met awaited) polls 0 =
        some (false, stop) ∧ s = ⟨awaited.sampleStep stop, awaited.reads stop⟩ := by
  rw [evals, Option.map_eq_some_iff]
  constructor
  · rintro ⟨⟨hit, stop⟩, ran, ended⟩
    cases hit with
    | true =>
        have returned : (0 : Int) = -etimedout := congrArg Prod.fst ended
        exact absurd returned (by decide)
    | false => exact ⟨stop, ran, (congrArg Prod.snd ended).symm⟩
  · rintro ⟨stop, ran, rfl⟩
    exact ⟨(false, stop), ran, rfl⟩

theorem neverSpurious_iff
    (evals : ∀ polls, trace.driver.eval (program polls) {} =
      (PollLoop.run (trace.expired awaited hz timeoutMs) (trace.met awaited) polls 0).map
        awaited.ended) :
    NeverSpurious trace awaited (trace.deadline hz timeoutMs) program ↔
      DeadlineMeetsSample trace awaited hz timeoutMs := by
  have start : PollLoop.WaitsUntil (trace.expired awaited hz timeoutMs) (trace.met awaited) 0 :=
    fun pass before => absurd before (Nat.not_lt_zero pass)
  have forward : Monotone fun pass => trace.clock (awaited.sampleStep pass) :=
    trace.forward.comp awaited.sampleStep_mono
  unfold DeadlineMeetsSample
  rw [← PollLoop.late_sample_iff forward]
  constructor
  · intro never polls stop ran
    obtain ⟨step, taken, -, late⟩ :=
      never.late polls _ ((timedOut_iff evals polls _).mpr ⟨stop, ran, rfl⟩)
    obtain ⟨pass, before, rfl⟩ := awaited.pass_of_sampled taken
    exact ⟨pass, before, late⟩
  · intro late
    have sampled : ∀ polls s, trace.driver.eval (program polls) {} = some (-etimedout, s) →
        ∃ step, awaited.Sampled s step ∧ awaited.met (trace.values awaited step) = false ∧
          trace.deadline hz timeoutMs ≤ trace.clock step := by
      intro polls s returned
      obtain ⟨stop, ran, rfl⟩ := (timedOut_iff evals polls s).mp returned
      obtain ⟨pass, before, here⟩ := late polls stop ran
      obtain ⟨-, -, -, waits⟩ := (PollLoop.run_gives_up_iff polls 0 stop start).mp ran
      exact ⟨awaited.sampleStep pass, awaited.sampled_of_lt before _, (waits pass before).2, here⟩
    refine ⟨sampled, fun since before holds polls s returned => ?_⟩
    obtain ⟨step, -, missed, here⟩ := sampled polls s returned
    rw [holds step (by omega)] at missed
    cases missed

end Timeouts

/-- For every trace: a polling function never times out spuriously exactly when the deadline always
comes between the last passed test and its sample. -/
theorem ring_timeouts_iff (trace : PollTrace) (hz timeoutMs : Nat) (base : Mapping) (off : Nat)
    (want : BitVec 32) (equal : Bool) :
    (NeverSpurious trace (waitU32Awaited off want equal) (trace.deadline hz timeoutMs)
        (fun polls => pcieRingWaitU32 ⟨hz, polls⟩ base off want equal timeoutMs) ↔
      DeadlineMeetsSample trace (waitU32Awaited off want equal) hz timeoutMs) ∧
    (NeverSpurious trace xferPollAwaited (trace.deadline hz timeoutMs)
        (fun polls => pcieRingXferPoll ⟨hz, polls⟩ base timeoutMs) ↔
      DeadlineMeetsSample trace xferPollAwaited hz timeoutMs) := by
  constructor
  · apply neverSpurious_iff
    intro polls
    unfold pcieRingWaitU32
    rw [Driver.eval_perform _ rfl]
    exact pollLoop_eval (waitU32Awaited off want equal) (fun _ => rfl)
      (pcieRingWaitLoop_pass trace hz timeoutMs base off want equal) polls 0
  · apply neverSpurious_iff
    intro polls
    unfold pcieRingXferPoll
    rw [Driver.eval_perform _ rfl]
    exact pollLoop_eval xferPollAwaited (fun _ => rfl)
      (pcieRingPollLoop_pass trace hz timeoutMs base) polls 0

/-- The deadline comes between the first test and its sample, and nothing that is waited for ever
holds: the num register is 1 and the others are 0. -/
def overdueTrace : PollTrace where
  clock step := if step ≤ 1 then 0 else 5000
  forward first second before := by
    dsimp only
    split
    · exact Nat.zero_le _
    · rw [if_neg (by omega)]
  register _ off := if off = rhNumOff then 1 else 0

theorem overdueTrace_meets (awaited : Awaited) :
    DeadlineMeetsSample overdueTrace awaited 1000 5000 := by
  have early : overdueTrace.expired awaited 1000 5000 0 = false := by
    simp only [PollTrace.expired, Awaited.testStep, Nat.zero_mul]
    decide
  have passed : overdueTrace.expired awaited 1000 5000 1 = true := by
    have after : overdueTrace.clock (awaited.testStep 1) = 5000 := by
      have late : ¬ awaited.testStep 1 ≤ 1 := by
        unfold Awaited.testStep
        omega
      show (if awaited.testStep 1 ≤ 1 then 0 else 5000) = 5000
      rw [if_neg late]
    rw [PollTrace.expired, after]
    decide
  intro stop expiry waits
  have first : stop ≤ 1 := waits.le (Or.inl passed)
  have some' : stop ≠ 0 := by
    rintro rfl
    rw [early] at expiry
    cases expiry
  refine ⟨0, by omega, ?_⟩
  simp only [Awaited.sampleStep, Awaited.testStep, Nat.zero_mul]
  decide

/-- Both functions rightly time out there, in their second pass. -/
theorem ring_times_out_overdue :
    NeverSpurious overdueTrace (waitU32Awaited rhMagicOff 1 true)
        (overdueTrace.deadline 1000 5000)
        (fun polls => pcieRingWaitU32 ⟨1000, polls⟩ 0 rhMagicOff 1 true 5000) ∧
      NeverSpurious overdueTrace xferPollAwaited (overdueTrace.deadline 1000 5000)
        (fun polls => pcieRingXferPoll ⟨1000, polls⟩ 0 5000) ∧
      overdueTrace.driver.eval (pcieRingWaitU32 ⟨1000, 2⟩ 0 rhMagicOff 1 true 5000) {} =
        some (-etimedout, ⟨5, [(2, rhMagicOff)]⟩) ∧
      overdueTrace.driver.eval (pcieRingXferPoll ⟨1000, 2⟩ 0 5000) {} =
        some (-etimedout, ⟨7, [(2, rhUsedOff), (3, rhNumOff), (4, rhAvailOff)]⟩) := by
  have meets := ring_timeouts_iff overdueTrace 1000 5000 0 rhMagicOff 1 true
  exact ⟨meets.1.mpr (overdueTrace_meets _), meets.2.mpr (overdueTrace_meets _),
    by decide +kernel, by decide +kernel⟩

/-- The thread is off the CPU for ten seconds after step `last`. From that step on a register that
was 0 is 1, the used register apart; the num register is 1 throughout. -/
def stalledTrace (last : Nat) : PollTrace where
  clock step := if step ≤ last then 0 else 10000
  forward first second before := by
    dsimp only
    split
    · exact Nat.zero_le _
    · rw [if_neg (by omega)]
  register step off :=
    if off = rhUsedOff then 0 else if off = rhNumOff ∨ last ≤ step then 1 else 0

/-- Both functions sample once, miss, sleep past the deadline, and give up, though what they wait
for has come about meanwhile. -/
theorem ring_times_out_spuriously :
    ¬ NeverSpurious (stalledTrace 3) (waitU32Awaited rhMagicOff 1 true)
        ((stalledTrace 3).deadline 1000 5000)
        (fun polls => pcieRingWaitU32 ⟨1000, polls⟩ 0 rhMagicOff 1 true 5000) ∧
      ¬ NeverSpurious (stalledTrace 5) xferPollAwaited ((stalledTrace 5).deadline 1000 5000)
        (fun polls => pcieRingXferPoll ⟨1000, polls⟩ 0 5000) := by
  have late : ∀ last step, 1 ≤ (stalledTrace last).clock step → last < step := by
    intro last step passed
    apply Nat.lt_of_not_le
    intro early
    simp only [stalledTrace, if_pos early] at passed
    omega
  constructor
  · intro never
    refine never.kept 1 (by decide) ?_ 2 ⟨5, [(2, rhMagicOff)]⟩ (by decide +kernel)
    intro step passed
    have after := late 3 step passed
    have here : 3 ≤ step := by omega
    simp [PollTrace.values, waitU32Awaited, stalledTrace, rhMagicOff, rhUsedOff, rhNumOff, here]
  · intro never
    refine never.kept 1 (by decide) ?_ 2
      ⟨7, [(2, rhUsedOff), (3, rhNumOff), (4, rhAvailOff)]⟩ (by decide +kernel)
    intro step passed
    have after := late 5 step passed
    have here : 5 ≤ step + 2 := by omega
    simp [PollTrace.values, xferPollAwaited, stalledTrace, rhUsedOff, rhNumOff, rhAvailOff, here]

end AmbaPci

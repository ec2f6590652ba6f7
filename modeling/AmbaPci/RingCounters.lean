import AmbaPci.RingRules

set_option autoImplicit false

/- The two counters of the ring, as the host and a consuming endpoint move them: what is left of the
ring when its bytes are forgotten. -/
namespace AmbaPci

open Interaction Interaction.Machine

structure RingCounters where
  used : BitVec 32
  avail : BitVec 32
  deriving DecidableEq, Repr

namespace RingCounters

/-- How many published descriptors are unconsumed, as the counters have it. -/
def pending (num : BitVec 32) (s : RingCounters) : Nat := (s.used - (s.avail - num)).toNat

/-- The slot of an unconsumed descriptor. -/
def InFlight (num : BitVec 32) (s : RingCounters) (slot : Nat) : Prop :=
  ∃ index < s.pending num, slot = (ringIndex (s.avail - num) index % num).toNat

def Idle (num : BitVec 32) (s : RingCounters) : Prop := s.used + num = s.avail

instance (num : BitVec 32) (s : RingCounters) : Decidable (s.Idle num) :=
  inferInstanceAs (Decidable (_ = _))

/-- The endpoint consumes a descriptor, if there is one. -/
def Consumes (num : BitVec 32) (s s' : RingCounters) : Prop :=
  s.used ≠ s.avail - num ∧ s' = { s with avail := s.avail + 1 }

def publish (s : RingCounters) : RingCounters := { s with used := s.used + 1 }

variable {num : BitVec 32} {s s' : RingCounters}

theorem pending_eq_zero_iff : s.pending num = 0 ↔ s.used = s.avail - num := by
  unfold pending
  constructor
  · intro zero
    have none : s.used - (s.avail - num) = 0 := BitVec.eq_of_toNat_eq zero
    exact BitVec.sub_eq_iff_eq_add.mp none |>.trans (BitVec.zero_add _)
  · intro same
    rw [same, BitVec.sub_self]
    rfl

theorem idle_iff : s.Idle num ↔ s.used = s.avail - num := by
  unfold Idle
  constructor
  · intro idle
    rw [← idle, BitVec.add_sub_cancel]
  · intro same
    rw [same, BitVec.sub_add_cancel]

theorem Idle.pending (idle : s.Idle num) : s.pending num = 0 :=
  pending_eq_zero_iff.mpr (idle_iff.mp idle)

/-- `used` is as many positions ahead of the endpoint as there are unconsumed descriptors. -/
theorem used_eq (s : RingCounters) :
    s.used = ringIndex (s.avail - num) (s.pending num) := by
  unfold ringIndex pending
  rw [BitVec.ofNat_toNat, BitVec.setWidth_eq, BitVec.add_comm, BitVec.sub_add_cancel]

theorem Consumes.pending (consumed : Consumes num s s') :
    s'.pending num + 1 = s.pending num := by
  obtain ⟨more, same⟩ := consumed
  have positive : s.pending num ≠ 0 := fun none => more (pending_eq_zero_iff.mp none)
  have less : s.used - (s.avail + 1 - num) = s.used - (s.avail - num) - 1 := by
    rw [BitVec.add_sub_comm, ← BitVec.sub_sub]
  have one : (1 : BitVec 32).toNat = 1 := rfl
  have bound := (s.used - (s.avail - num)).isLt
  subst same
  unfold RingCounters.pending at positive ⊢
  rw [less, BitVec.toNat_sub, one]
  omega

theorem publish_pending (room : s.pending num < num.toNat) :
    s.publish.pending num = s.pending num + 1 := by
  have more : s.used + 1 - (s.avail - num) = s.used - (s.avail - num) + 1 := BitVec.add_sub_comm
  have one : (1 : BitVec 32).toNat = 1 := rfl
  have bound := num.isLt
  unfold RingCounters.pending at room ⊢
  unfold publish
  rw [more, BitVec.toNat_add, one]
  omega

/-- The ring is full exactly when `avail` has come round to `used`. -/
theorem pending_eq_num_iff : s.pending num = num.toNat ↔ s.avail = s.used := by
  unfold pending
  constructor
  · intro full
    have same : s.used - (s.avail - num) = num := BitVec.eq_of_toNat_eq full
    have sum := BitVec.sub_eq_iff_eq_add.mp same
    rw [BitVec.add_comm, BitVec.sub_add_cancel] at sum
    exact sum.symm
  · intro same
    have whole : s.used - (s.used - num) = num :=
      BitVec.sub_eq_iff_eq_add.mpr (by rw [BitVec.add_comm, BitVec.sub_add_cancel])
    rw [same, whole]

/-- As long as the ring is not full, the slot at `used` is free. -/
theorem slot_free (divides : num.toNat ∣ 2 ^ 32) (room : s.pending num < num.toNat) :
    ¬ s.InFlight num (s.used % num).toNat := by
  rintro ⟨index, before, same⟩
  have position : s.used = ringIndex (s.avail - num) (s.pending num) := used_eq s
  rw [position, ringIndex_mod divides, ringIndex_mod divides] at same
  exact mod_ne_of_near (by omega) (by omega) same.symm

end RingCounters

/-- The registers read the counters and the constant `num`; every other reply is free. -/
def counterAnswer (num : BitVec 32) (s : RingCounters) : (op : Op) → op.Reply → RingCounters → Prop
  | .readl _ _ off, value, s' =>
      s' = s ∧ (off = rhUsedOff → value = s.used) ∧ (off = rhAvailOff → value = s.avail) ∧
        (off = rhNumOff → value = num)
  | .writel _ _ off value, _, s' => s' = if off = rhUsedOff then { s with used := value } else s
  | _, _, s' => s' = s

/-- The ring reduced to its counters, with an endpoint that consumes in order. -/
def counterMachine (num : BitVec 32) : Machine Op Op.Reply RingCounters where
  answer := counterAnswer num
  interfere := RingCounters.Consumes num

end AmbaPci

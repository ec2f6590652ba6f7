import Mathlib.Logic.Function.Basic
import AmbaPci.ByteMemory
import AmbaPci.RingAccesses
import AmbaPci.SlotSections

set_option autoImplicit false

/- The start-up of the endpoints beside the host: each slot has the BAR of its card, where the
endpoint fills the board info area, writes the magic word and goes online. -/
namespace AmbaPci

open ByteMemory
open Interaction Interaction.Prog Interaction.Machine

/-- The endpoint has published its board info. -/
def BoardPublished (bar : Memory) : Prop := load32 bar rhMagicOff = ringMagic

instance (bar : Memory) : Decidable (BoardPublished bar) := inferInstanceAs (Decidable (_ = _))

/-- The words of the board info area. -/
def boardWords (bar : Memory) : List (BitVec 32) :=
  (List.range 14).map fun index => load32 bar (rhBdOff + index * 4)

/-- What the firmware of a card does to its BAR. The area is only filled before the magic word is
there; the ring registers and whatever lies behind the header are its own throughout. -/
inductive StartupStep (bar : Memory) : Memory → Prop
  | fills {index : Nat} {word : BitVec 32} (inside : index < 14) (early : ¬ BoardPublished bar) :
      StartupStep bar (store32 bar (rhBdOff + index * 4) word)
  | publishes : StartupStep bar (store32 bar rhMagicOff ringMagic)
  | goesOnline (published : BoardPublished bar) :
      StartupStep bar (store32 bar rhStateOff ringStateOnline)
  | serves {bar' : Memory}
      (kept : ∀ cell, cell < rhAvailOff ∨ rhBdOff ≤ cell ∧ cell < rhDesc0Off →
        bar' cell = bar cell) : StartupStep bar bar'

/-- The magic word and the board info area are as they were. -/
def HeaderKept (bar bar' : Memory) : Prop :=
  load32 bar' rhMagicOff = load32 bar rhMagicOff ∧ boardWords bar' = boardWords bar

theorem HeaderKept.of_cells {bar bar' : Memory}
    (same : ∀ cell, cell < rhStateOff ∨ rhBdOff ≤ cell ∧ cell < rhDesc0Off →
      bar' cell = bar cell) : HeaderKept bar bar' := by
  have magic : rhMagicOff = 0 := rfl
  have state : rhStateOff = 4 := rfl
  have area : rhBdOff = 24 := rfl
  have table : rhDesc0Off = 80 := rfl
  constructor
  · apply load32_congr
    intro index inside
    exact same _ (by omega)
  · apply List.map_congr_left
    intro index inside
    have below := List.mem_range.mp inside
    apply load32_congr
    intro cell within
    exact same _ (by omega)

/-- A word outside the magic word and the area is written. -/
theorem HeaderKept.store32 {bar : Memory} {off : Nat} {word : BitVec 32}
    (outside : off = rhStateOff ∨ off = rhUsedOff ∨ rhDesc0Off ≤ off) :
    HeaderKept bar (store32 bar off word) := by
  have state : rhStateOff = 4 := rfl
  have used : rhUsedOff = 12 := rfl
  have area : rhBdOff = 24 := rfl
  have table : rhDesc0Off = 80 := rfl
  apply HeaderKept.of_cells
  intro cell inside
  exact store32_outside bar off word cell (by omega)

theorem HeaderKept.storeBytes {bar : Memory} {off : Nat} {bytes : List Byte}
    (behind : rhDesc0Off ≤ off) : HeaderKept bar (storeBytes bar off bytes) := by
  have area : rhBdOff = 24 := rfl
  have table : rhDesc0Off = 80 := rfl
  have state : rhStateOff = 4 := rfl
  apply HeaderKept.of_cells
  intro cell inside
  exact storeBytes_outside bar off bytes cell (by omega)

/-- What has been published stays. -/
theorem StartupStep.headerKept {bar bar' : Memory} (step : StartupStep bar bar')
    (published : BoardPublished bar) : HeaderKept bar bar' := by
  cases step with
  | fills inside early => exact absurd published early
  | publishes =>
      constructor
      · rw [load32_store32_same]
        exact published.symm
      · apply List.map_congr_left
        intro index _
        apply load32_store32_apart
        have magic : rhMagicOff = 0 := rfl
        have area : rhBdOff = 24 := rfl
        unfold Apart
        omega
  | goesOnline _ => exact .store32 (Or.inl rfl)
  | serves kept =>
      apply HeaderKept.of_cells
      intro cell inside
      have state : rhStateOff = 4 := rfl
      have avail : rhAvailOff = 8 := rfl
      exact kept cell (by omega)

/-! The host beside the endpoints -/

/-- The BARs of the cards, by slot. -/
abbrev EpWorld := Fin ambaPciDevMax → Memory

/-- A mapping shows the BAR of the card it was made for, and every card its own slot's. -/
def MapsSlot (slotOf : Mapping → Option (Fin ambaPciDevMax)) : (op : Op) → op.Reply → Prop
  | .pciIomap pdev _ _, mapped => ∀ base slot, mapped = some base →
      pdev.bus = (pciePhysicalSlots slot).bus → slotOf base = some slot
  | _, _ => True

/-- Ring accesses go to the BAR that the mapping shows; no other operation touches one. -/
def epAnswer (slotOf : Mapping → Option (Fin ambaPciDevMax)) :
    EpWorld → (op : Op) → op.Reply → EpWorld → Prop
  | w, .readl _ base off, value, w' =>
      w' = w ∧ ∀ slot, slotOf base = some slot → value = load32 (w slot) off
  | w, .writel _ base off value, _, w' =>
      w' = fun slot => if slotOf base = some slot then store32 (w slot) off value else w slot
  | w, .memcpyToio _ base off bytes, _, w' =>
      w' = fun slot => if slotOf base = some slot then storeBytes (w slot) off bytes else w slot
  | w, op, reply, w' => w' = w ∧ MapsSlot slotOf op reply

def epMachine (slotOf : Mapping → Option (Fin ambaPciDevMax)) : Machine Op Op.Reply EpWorld where
  answer := epAnswer slotOf
  interfere w w' := ∃ slot bar, StartupStep (w slot) bar ∧ w' = Function.update w slot bar

/-- Whenever `pcie_ring_read_board_info` reads its first word, the magic word is there. -/
def ReadsPublished (slotOf : Mapping → Option (Fin ambaPciDevMax)) : EpWorld → Op → Prop
  | w, .readl .readBoardInfo base off =>
      off = rhBdOff → ∀ slot, slotOf base = some slot → BoardPublished (w slot)
  | _, _ => True

variable {slotOf : Mapping → Option (Fin ambaPciDevMax)}

theorem epAnswer_mapsSlot {w w' : EpWorld} {op : Op} {reply : op.Reply}
    (answered : epAnswer slotOf w op reply w') : MapsSlot slotOf op reply := by
  cases op with
  | readl | writel | memcpyToio => trivial
  | _ => exact answered.2

/-- Whatever spares the header leaves what every endpoint has published. -/
theorem epAnswer_headerKept {w w' : EpWorld} {op : Op} {reply : op.Reply}
    (spares : op.SparesHeader) (answered : epAnswer slotOf w op reply w')
    (slot : Fin ambaPciDevMax) : HeaderKept (w slot) (w' slot) := by
  have same : w' = w → HeaderKept (w slot) (w' slot) := fun same => same ▸ ⟨rfl, rfl⟩
  cases op with
  | readl fn base off => exact same answered.1
  | writel fn base off value =>
      have wrote : w' = _ := answered
      rw [wrote]
      dsimp only
      split
      · exact .store32 (Or.inr spares)
      · exact ⟨rfl, rfl⟩
  | memcpyToio fn base off bytes =>
      have copied : w' = _ := answered
      rw [copied]
      dsimp only
      split
      · exact .storeBytes spares
      · exact ⟨rfl, rfl⟩
  | _ => exact same answered.1

theorem epMachine_headerKept {w w' : EpWorld} (moved : (epMachine slotOf).interfere w w')
    {slot : Fin ambaPciDevMax} (published : BoardPublished (w slot)) :
    HeaderKept (w slot) (w' slot) := by
  obtain ⟨other, bar, step, rfl⟩ := moved
  by_cases same : slot = other
  · subst same
    rw [Function.update_self]
    exact step.headerKept published
  · rw [Function.update_of_ne same]
    exact ⟨rfl, rfl⟩

theorem HeaderKept.published {bar bar' : Memory} (kept : HeaderKept bar bar')
    (published : BoardPublished bar) : BoardPublished bar' := kept.1.trans published

end AmbaPci

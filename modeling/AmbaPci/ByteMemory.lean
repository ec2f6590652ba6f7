import Mathlib.Algebra.Group.Int.Defs
import Mathlib.Algebra.GroupWithZero.Nat
import Mathlib.Data.Nat.Init

set_option autoImplicit false

/- Byte-addressed memory with little-endian 32-bit words, as a processor sees a device window. -/
namespace ByteMemory

abbrev Byte := BitVec 8

abbrev Memory := Nat → Byte

/-- Byte `index` of a little-endian word. -/
def wordByte (word : BitVec 32) (index : Nat) : Byte :=
  BitVec.ofNat 8 (word.toNat / 256 ^ index)

def load32 (memory : Memory) (address : Nat) : BitVec 32 :=
  BitVec.ofNat 32 ((memory address).toNat + 256 * (memory (address + 1)).toNat +
    65536 * (memory (address + 2)).toNat + 16777216 * (memory (address + 3)).toNat)

def store32 (memory : Memory) (address : Nat) (word : BitVec 32) : Memory := fun cell =>
  if address ≤ cell ∧ cell < address + 4 then wordByte word (cell - address) else memory cell

def loadBytes (memory : Memory) (address length : Nat) : List Byte :=
  (List.range length).map fun index => memory (address + index)

def storeBytes (memory : Memory) (address : Nat) (bytes : List Byte) : Memory := fun cell =>
  if address ≤ cell ∧ cell < address + bytes.length then bytes[cell - address]?.getD 0
  else memory cell

/-- Two address ranges share no cell. -/
def Apart (first length second width : Nat) : Prop :=
  first + length ≤ second ∨ second + width ≤ first

instance (first length second width : Nat) : Decidable (Apart first length second width) :=
  inferInstanceAs (Decidable (_ ∨ _))

@[simp] theorem loadBytes_length (memory : Memory) (address length : Nat) :
    (loadBytes memory address length).length = length := by
  simp [loadBytes]

theorem store32_outside (memory : Memory) (address : Nat) (word : BitVec 32) (cell : Nat)
    (outside : cell < address ∨ address + 4 ≤ cell) :
    store32 memory address word cell = memory cell := by
  have absent : ¬ (address ≤ cell ∧ cell < address + 4) := by omega
  simp only [store32, absent, ↓reduceIte]

theorem store32_inside (memory : Memory) (address : Nat) (word : BitVec 32) (index : Nat)
    (inside : index < 4) :
    store32 memory address word (address + index) = wordByte word index := by
  have present : address ≤ address + index ∧ address + index < address + 4 := by omega
  simp only [store32, present, and_self, ↓reduceIte, Nat.add_sub_cancel_left]

theorem storeBytes_outside (memory : Memory) (address : Nat) (bytes : List Byte) (cell : Nat)
    (outside : cell < address ∨ address + bytes.length ≤ cell) :
    storeBytes memory address bytes cell = memory cell := by
  have absent : ¬ (address ≤ cell ∧ cell < address + bytes.length) := by omega
  simp only [storeBytes, absent, ↓reduceIte]

theorem storeBytes_inside (memory : Memory) (address : Nat) (bytes : List Byte) {index : Nat}
    (inside : index < bytes.length) :
    storeBytes memory address bytes (address + index) = bytes[index] := by
  have present : address ≤ address + index ∧ address + index < address + bytes.length := by omega
  simp only [storeBytes, present, and_self, ↓reduceIte, Nat.add_sub_cancel_left,
    List.getElem?_eq_getElem inside, Option.getD_some]

theorem load32_congr {memory memory' : Memory} {address : Nat}
    (same : ∀ index < 4, memory (address + index) = memory' (address + index)) :
    load32 memory address = load32 memory' address := by
  have first := same 0 (by omega)
  simp only [Nat.add_zero] at first
  simp only [load32, first, same 1 (by omega), same 2 (by omega), same 3 (by omega)]

/-- A stored word is read back whole. -/
@[simp] theorem load32_store32_same (memory : Memory) (address : Nat) (word : BitVec 32) :
    load32 (store32 memory address word) address = word := by
  have first := store32_inside memory address word 0 (by omega)
  simp only [Nat.add_zero] at first
  apply BitVec.eq_of_toNat_eq
  simp only [load32, first, store32_inside _ _ _ 1 (by omega : 1 < 4),
    store32_inside _ _ _ 2 (by omega : 2 < 4), store32_inside _ _ _ 3 (by omega : 3 < 4),
    wordByte, BitVec.toNat_ofNat]
  have bound := word.isLt
  omega

theorem load32_store32_apart (memory : Memory) (address other : Nat) (word : BitVec 32)
    (apart : Apart address 4 other 4) :
    load32 (store32 memory address word) other = load32 memory other := by
  apply load32_congr
  intro index inside
  apply store32_outside
  unfold Apart at apart
  omega

theorem loadBytes_congr {memory memory' : Memory} {address length : Nat}
    (same : ∀ index < length, memory (address + index) = memory' (address + index)) :
    loadBytes memory address length = loadBytes memory' address length := by
  unfold loadBytes
  apply List.map_congr_left
  intro index inside
  exact same index (List.mem_range.mp inside)

theorem loadBytes_append (memory : Memory) (address first second : Nat) :
    loadBytes memory address (first + second) =
      loadBytes memory address first ++ loadBytes memory (address + first) second := by
  simp only [loadBytes, List.range_add, List.map_append, List.map_map, Function.comp_def,
    Nat.add_assoc]

@[simp] theorem storeBytes_nil (memory : Memory) (address : Nat) :
    storeBytes memory address [] = memory := by
  funext cell
  apply storeBytes_outside
  rw [List.length_nil]
  omega

/-- Two stores one behind the other are one store. -/
theorem storeBytes_append (memory : Memory) (address : Nat) (first second : List Byte) :
    storeBytes (storeBytes memory address first) (address + first.length) second =
      storeBytes memory address (first ++ second) := by
  funext cell
  simp only [storeBytes, List.length_append]
  by_cases low : cell < address + first.length
  · rw [if_neg (by omega)]
    by_cases below : address ≤ cell
    · rw [if_pos ⟨below, low⟩, if_pos (by omega), List.getElem?_append_left (by omega)]
    · rw [if_neg (by omega), if_neg (by omega)]
  · rw [if_neg (by omega : ¬ (address ≤ cell ∧ cell < address + first.length))]
    by_cases above : cell < address + first.length + second.length
    · rw [if_pos (by omega), if_pos (by omega), List.getElem?_append_right (by omega)]
      congr 2
      omega
    · rw [if_neg (by omega), if_neg (by omega)]

theorem loadBytes_storeBytes_same (memory : Memory) (address : Nat) (bytes : List Byte) :
    loadBytes (storeBytes memory address bytes) address bytes.length = bytes := by
  apply List.ext_getElem
  · simp
  · intro index _ inside
    have present : address ≤ address + index ∧ address + index < address + bytes.length := by
      omega
    simp only [loadBytes, storeBytes, List.getElem_map, List.getElem_range, present, and_self,
      ↓reduceIte, Nat.add_sub_cancel_left, List.getElem?_eq_getElem inside, Option.getD_some]

theorem loadBytes_storeBytes_apart (memory : Memory) (address other length : Nat)
    (bytes : List Byte) (apart : Apart address bytes.length other length) :
    loadBytes (storeBytes memory address bytes) other length = loadBytes memory other length := by
  apply loadBytes_congr
  intro index inside
  apply storeBytes_outside
  unfold Apart at apart
  omega

/-- Consecutive words in memory. -/
def WordsAt (memory : Memory) (address : Nat) (words : List (BitVec 32)) : Prop :=
  ∀ index, (inside : index < words.length) → load32 memory (address + 4 * index) = words[index]

theorem WordsAt.congr {memory memory' : Memory} {address : Nat} {words : List (BitVec 32)}
    (held : WordsAt memory address words)
    (same : ∀ cell, address ≤ cell → memory' cell = memory cell) :
    WordsAt memory' address words := by
  intro index inside
  rw [← held index inside]
  apply load32_congr
  intro byte _
  exact same _ (by omega)

/-- One more word, stored behind the last. -/
theorem WordsAt.snoc {memory : Memory} {address : Nat} {words : List (BitVec 32)}
    (held : WordsAt memory address words) (word : BitVec 32) :
    WordsAt (store32 memory (address + 4 * words.length) word) address (words ++ [word]) := by
  intro index inside
  by_cases old : index < words.length
  · rw [List.getElem_append_left old, ← held index old]
    apply load32_store32_apart
    unfold Apart
    omega
  · rw [List.length_append, List.length_singleton] at inside
    have last : index = words.length := by omega
    subst last
    rw [List.getElem_concat_length rfl]
    exact load32_store32_same _ _ _

end ByteMemory

import AmbaPci.ByteMemory

set_option autoImplicit false

/- What the firmware on the endpoint does with the descriptors it consumes: the memory writes of
DATA descriptors, and the commands it records. -/
namespace AmbaPci

open ByteMemory

inductive EpAction
  | write (addr : BitVec 64) (bytes : List Byte)
  | command (cmd size : BitVec 32) (addr : BitVec 64)
  deriving DecidableEq, Repr

def EpAction.run (memory : Memory) : EpAction → Memory
  | .write addr bytes => storeBytes memory addr.toNat bytes
  | .command _ _ _ => memory

def runActions (memory : Memory) (actions : List EpAction) : Memory :=
  actions.foldl EpAction.run memory

@[simp] theorem runActions_append (memory : Memory) (first second : List EpAction) :
    runActions memory (first ++ second) = runActions (runActions memory first) second :=
  List.foldl_append

@[simp] theorem runActions_command (memory : Memory) (cmd size : BitVec 32) (addr : BitVec 64) :
    runActions memory [.command cmd size addr] = memory := rfl

/-- The actions are writes to consecutive addresses from `addr` on, and what they write is
`bytes`. -/
inductive Tiles : BitVec 64 → List EpAction → List Byte → Prop
  | nil (addr : BitVec 64) : Tiles addr [] []
  | cons (addr : BitVec 64) (bytes : List Byte) (actions : List EpAction) (rest : List Byte)
      (later : Tiles (addr + BitVec.ofNat 64 bytes.length) actions rest) :
      Tiles addr (.write addr bytes :: actions) (bytes ++ rest)

/-- One more write, behind the last. -/
theorem Tiles.snoc {addr : BitVec 64} {actions : List EpAction} {bytes : List Byte}
    (tiles : Tiles addr actions bytes) (more : List Byte) :
    Tiles addr (actions ++ [.write (addr + BitVec.ofNat 64 bytes.length) more])
      (bytes ++ more) := by
  induction tiles with
  | nil addr =>
      have single := Tiles.cons addr more [] [] (.nil _)
      rw [List.append_nil] at single
      rw [List.length_nil, BitVec.add_zero]
      exact single
  | cons addr bytes actions rest later ih =>
      have shift : addr + BitVec.ofNat 64 bytes.length + BitVec.ofNat 64 rest.length =
          addr + BitVec.ofNat 64 (bytes ++ rest).length := by
        rw [List.length_append, BitVec.ofNat_add, BitVec.add_assoc]
      rw [shift] at ih
      rw [List.append_assoc]
      exact .cons addr bytes _ _ ih

/-- Short of the end of the address space, the writes together are one store. -/
theorem Tiles.run {addr : BitVec 64} {actions : List EpAction} {bytes : List Byte}
    (tiles : Tiles addr actions bytes) (inside : addr.toNat + bytes.length ≤ 2 ^ 64)
    (memory : Memory) : runActions memory actions = storeBytes memory addr.toNat bytes := by
  induction tiles generalizing memory with
  | nil addr => exact (storeBytes_nil memory _).symm
  | cons addr bytes actions rest later ih =>
      rw [List.length_append] at inside
      have bound := addr.isLt
      show runActions (storeBytes memory addr.toNat bytes) actions = _
      rw [← storeBytes_append]
      by_cases room : addr.toNat + bytes.length < 2 ^ 64
      · have next : (addr + BitVec.ofNat 64 bytes.length).toNat = addr.toNat + bytes.length := by
          rw [BitVec.toNat_add, BitVec.toNat_ofNat, Nat.add_mod_mod, Nat.mod_eq_of_lt room]
        rw [ih (by omega), next]
      · have full : rest = [] := List.eq_nil_of_length_eq_zero (by omega)
        subst full
        rw [ih (by have small := (addr + BitVec.ofNat 64 bytes.length).isLt; simp; omega),
          storeBytes_nil, storeBytes_nil]

/-- The five words of a descriptor. -/
structure EpDesc where
  cmd : BitVec 32
  size : BitVec 32
  addrLo : BitVec 32
  addrHi : BitVec 32
  blkid : BitVec 32
  deriving DecidableEq, Repr

def EpDesc.addr (desc : EpDesc) : BitVec 64 :=
  BitVec.ofNat 64 (desc.addrLo.toNat + desc.addrHi.toNat * 2 ^ 32)

/-- Both halves of an address make the address. -/
theorem EpDesc.addr_halves (cmd size blkid : BitVec 32) (addr : BitVec 64) :
    EpDesc.addr ⟨cmd, size, addr.setWidth 32, (addr >>> 32).setWidth 32, blkid⟩ = addr := by
  apply BitVec.eq_of_toNat_eq
  have bound := addr.isLt
  simp only [EpDesc.addr, BitVec.toNat_ofNat, BitVec.toNat_setWidth, BitVec.toNat_ushiftRight,
    Nat.shiftRight_eq_div_pow]
  omega

end AmbaPci

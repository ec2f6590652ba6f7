import AmbaPci.ImagePosts

set_option autoImplicit false

/- The ring as it is shared with the endpoint: the bytes of the boot BAR, which the host reads and
writes, and firmware that consumes the descriptors in order between any two accesses. -/
namespace AmbaPci

open ByteMemory
open Interaction Interaction.Machine

/-- Where the endpoint is with the descriptor at its read position. -/
inductive EpPhase
  | waiting
  | fetched (desc : EpDesc)
  | executed
  deriving DecidableEq, Repr

structure RingWorld where
  bar : Memory
  phase : EpPhase
  log : List EpAction

namespace RingWorld

def used (s : RingWorld) : BitVec 32 := load32 s.bar rhUsedOff
def avail (s : RingWorld) : BitVec 32 := load32 s.bar rhAvailOff
def num (s : RingWorld) : BitVec 32 := load32 s.bar rhNumOff
def maxBlk (s : RingWorld) : BitVec 32 := load32 s.bar rhMaxBlkOff

end RingWorld

def loadDesc (bar : Memory) (off : Nat) : EpDesc where
  cmd := load32 bar off
  size := load32 bar (off + 4)
  addrLo := load32 bar (off + 8)
  addrHi := load32 bar (off + 12)
  blkid := load32 bar (off + 16)

/-- What executing a descriptor amounts to, with the data block it names. -/
def execDesc (bar : Memory) (desc : EpDesc) : EpAction :=
  desc.action (loadBytes bar (pcieRingDataBlk desc.blkid) desc.size.toNat)

/-- The firmware: while `used` differs from its read position `avail - num`, it reads the descriptor
there, executes it and adds 1 to `avail`. -/
inductive EpStep : RingWorld → RingWorld → Prop
  | fetch (s : RingWorld) (waiting : s.phase = .waiting) (published : s.used ≠ s.avail - s.num) :
      EpStep s { s with
        phase := .fetched (loadDesc s.bar (pcieRingDesc (s.avail - s.num) s.num)) }
  | execute (s : RingWorld) (desc : EpDesc) (fetched : s.phase = .fetched desc) :
      EpStep s { s with phase := .executed, log := s.log ++ [execDesc s.bar desc] }
  | advance (s : RingWorld) (executed : s.phase = .executed) :
      EpStep s { s with phase := .waiting, bar := store32 s.bar rhAvailOff (s.avail + 1) }

/-- `memcpy_toio` writes one byte after the other, and the endpoint may step between any two. -/
inductive CopyToio : Nat → List Byte → RingWorld → RingWorld → Prop
  | done (off : Nat) (s : RingWorld) : CopyToio off [] s s
  | store (off : Nat) (byte : Byte) (rest : List Byte) (s s' : RingWorld)
      (later : CopyToio (off + 1) rest { s with bar := storeBytes s.bar off [byte] } s') :
      CopyToio off (byte :: rest) s s'
  | interfere (off : Nat) (bytes : List Byte) (s s₁ s' : RingWorld) (moved : EpStep s s₁)
      (later : CopyToio off bytes s₁ s') : CopyToio off bytes s s'

/-- What is in memory after a copy during which the endpoint stands still. -/
def copyToio (bar : Memory) : Nat → List Byte → Memory
  | _, [] => bar
  | off, byte :: rest => copyToio (storeBytes bar off [byte]) (off + 1) rest

theorem copyToio_copies (off : Nat) (bytes : List Byte) (s : RingWorld) :
    CopyToio off bytes s { s with bar := copyToio s.bar off bytes } := by
  induction bytes generalizing off s with
  | nil => exact .done off s
  | cons byte rest ih =>
      exact .store off byte rest s _ (ih (off + 1) { s with bar := storeBytes s.bar off [byte] })

/-- The accesses of the host. There is one mapping, so that its cookie says nothing; the clock and
the allocator answer anything. -/
def ringAnswer (user : BitVec 64 → Byte) (s : RingWorld) :
    (op : Op) → op.Reply → RingWorld → Prop
  | .readl _ _ off, value, s' => value = load32 s.bar off ∧ s' = s
  | .writel _ _ off value, _, s' => s' = { s with bar := store32 s.bar off value }
  | .memcpyToio _ _ off bytes, _, s' => CopyToio off bytes s s'
  | .copyFromUser src length, reply, s' =>
      s' = s ∧ ∀ bytes, reply = some bytes → bytes.toList = userBytes user src length
  | _, _, s' => s' = s

def ringMachine (user : BitVec 64 → Byte) : Machine Op Op.Reply RingWorld where
  answer := ringAnswer user
  interfere := EpStep

/-- The constants the endpoint has put into the header. -/
structure RingHeader (num maxBlk : BitVec 32) (ringMapSize : BitVec 64) : Prop where
  divides : num.toNat ∣ 2 ^ 32
  positive : 1 ≤ num.toNat
  atMost : num.toNat ≤ maxBlk.toNat
  slots : 80 + 20 * num.toNat ≤ 512
  blocks : (maxBlk.toNat + 1) * 512 ≤ ringMapSize.toNat

/-- The ring is idle: every published descriptor has been consumed, and `log` is what they did. -/
structure IdleRing (num maxBlk : BitVec 32) (log : List EpAction) (s : RingWorld) : Prop where
  num : s.num = num
  maxBlk : s.maxBlk = maxBlk
  idle : s.used + s.num = s.avail
  phase : s.phase = .waiting
  log : s.log = log

/-! Descriptors in flight -/

/-- The descriptor that makes the endpoint do `action`, with its data in block `blkid`. -/
def EpAction.desc (blkid : BitVec 32) : EpAction → EpDesc
  | .write addr bytes =>
      ⟨ringCmdData, BitVec.ofNat 32 bytes.length, addr.setWidth 32, (addr >>> 32).setWidth 32,
        blkid⟩
  | .command cmd size addr => ⟨cmd, size, addr.setWidth 32, (addr >>> 32).setWidth 32, 0⟩

/-- The block of a write holds its data. -/
def EpAction.InBlock (bar : Memory) (blkid : BitVec 32) : EpAction → Prop
  | .write _ bytes =>
      bytes.length ≤ ringBlockSize ∧ loadBytes bar (pcieRingDataBlk blkid) bytes.length = bytes
  | .command cmd _ _ => cmd ≠ ringCmdData

/-- A published descriptor that the endpoint has still to consume. -/
structure InFlight (bar : Memory) (off : Nat) (blkid : BitVec 32) (action : EpAction) : Prop where
  desc : loadDesc bar off = action.desc blkid
  block : action.InBlock bar blkid

theorem InFlight.exec {bar : Memory} {off : Nat} {blkid : BitVec 32} {action : EpAction}
    (flight : InFlight bar off blkid action) : execDesc bar (loadDesc bar off) = action := by
  obtain ⟨desc, block⟩ := flight
  rw [desc]
  cases action with
  | write addr bytes =>
      obtain ⟨short, held⟩ := block
      have size : (BitVec.ofNat 32 bytes.length).toNat = bytes.length := by
        unfold ringBlockSize at short
        rw [BitVec.toNat_ofNat, Nat.mod_eq_of_lt (by omega)]
      unfold execDesc EpAction.desc EpDesc.action
      rw [if_pos rfl, EpDesc.addr_halves, size, held]
  | command cmd size addr =>
      unfold execDesc EpAction.desc EpDesc.action
      rw [if_neg block, EpDesc.addr_halves]

theorem loadDesc_congr {bar bar' : Memory} {off : Nat}
    (same : ∀ cell, off ≤ cell → cell < off + 20 → bar' cell = bar cell) :
    loadDesc bar' off = loadDesc bar off := by
  have word : ∀ index, index ≤ 16 → load32 bar' (off + index) = load32 bar (off + index) := by
    intro index low
    apply load32_congr
    intro byte inside
    exact same _ (by omega) (by omega)
  unfold loadDesc
  rw [show load32 bar' off = load32 bar off from word 0 (by omega), word 4 (by omega),
    word 8 (by omega), word 12 (by omega), word 16 (by omega)]

/-- What is written elsewhere leaves a descriptor in flight alone. -/
theorem InFlight.frame {bar bar' : Memory} {off : Nat} {blkid : BitVec 32} {action : EpAction}
    (flight : InFlight bar off blkid action)
    (slot : ∀ cell, off ≤ cell → cell < off + 20 → bar' cell = bar cell)
    (block : ∀ cell, pcieRingDataBlk blkid ≤ cell → cell < pcieRingDataBlk blkid + ringBlockSize →
      bar' cell = bar cell) :
    InFlight bar' off blkid action where
  desc := (loadDesc_congr slot).trans flight.desc
  block := by
    have held := flight.block
    cases action with
    | write addr bytes =>
        obtain ⟨short, held⟩ := held
        refine ⟨short, Eq.trans (loadBytes_congr ?_) held⟩
        intro index inside
        exact block _ (by omega) (by omega)
    | command cmd size addr => exact held

end AmbaPci

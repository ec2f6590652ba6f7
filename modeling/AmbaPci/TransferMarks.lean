import AmbaPci.EpActions
import AmbaPci.RingAccesses
import AmbaPci.RingRuns
import AmbaPci.XferRules

set_option autoImplicit false

/- What one firmware transfer does to the ring, as a list of marks: what is fetched from user memory
and copied into a block, each descriptor published, and each time `pcie_ring_xfer_poll` finds the
ring idle. Every reply is free. -/
namespace AmbaPci

open ByteMemory (Byte)
open Interaction Interaction.Machine

inductive XferMark
  | fetch (src : BitVec 64) (bytes : List Byte)
  | copy (off : Nat) (bytes : List Byte)
  | chunk (addr : BitVec 64) (size blkid : BitVec 32)
  | command (cmd size : BitVec 32) (addr : BitVec 64)
  | idle
  deriving DecidableEq, Repr

/-- The descriptor words written since the last descriptor, what `pcie_ring_xfer_poll` has read, and
the marks so far. -/
structure MarkRecord where
  words : List (BitVec 32) := []
  used : BitVec 32 := 0
  num : BitVec 32 := 0
  marks : List XferMark := []
  deriving DecidableEq, Repr

def MarkRecord.mark (s : MarkRecord) (m : XferMark) : MarkRecord :=
  { s with marks := s.marks ++ [m] }

def MarkRecord.publish (s : MarkRecord) : MarkRecord :=
  match s.words with
  | [cmd, size, addrLo, addrHi, blkid] =>
      let desc : EpDesc := ⟨cmd, size, addrLo, addrHi, blkid⟩
      { s with words := [] }.mark
        (if cmd = ringCmdData then .chunk desc.addr size blkid else .command cmd size desc.addr)
  | _ => { s with words := [] }

/-- The third read of `pcie_ring_xfer_poll` tells whether the ring is idle. -/
def MarkRecord.polled (s : MarkRecord) (off : Nat) (value : BitVec 32) : MarkRecord :=
  if off = rhUsedOff then { s with used := value }
  else if off = rhNumOff then { s with num := value }
  else if s.used + s.num = value then s.mark .idle
  else s

def MarkRecord.fetched (s : MarkRecord) (src : BitVec 64) {length : Nat} :
    Option (Vector Byte length) → MarkRecord
  | some bytes => s.mark (.fetch src bytes.toList)
  | none => s

end AmbaPci

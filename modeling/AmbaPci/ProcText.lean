import AmbaPci.DriverCalls
import AmbaPci.TextFormat

set_option autoImplicit false

/- The texts of the proc nodes that are read. -/
namespace AmbaPci

open ByteMemory (Byte)
open TextFormat

/-- The source's "Unknown" is for values that no entry has. -/
def pcieStateStr : DevState → Text
  | .disconnected => text "Disconnected"
  | .booting => text "Booting"
  | .rebooting => text "Rebooting"
  | .connected => text "Connected"
  | .bootFailed => text "Boot failed"

/-! The formats, cut where a conversion ends -/

/-- "state=%s\n" -/
def stateField : Field := ⟨text "state=", .str, 10⟩

def statusFormat : Format := [stateField]

/-- The first format of `pcie_format_dev_info_proc`. -/
def devInfoFormat : Format :=
  [stateField,
   ⟨text "domain=", .num 16 4, 32⟩, ⟨text "bus=", .num 16 2, 32⟩,
   ⟨text "slot=", .num 16 2, 32⟩, ⟨text "func=", .num 16 0, 10⟩,
   ⟨text "vendor=0x", .num 16 4, 32⟩, ⟨text "device=0x", .num 16 4, 10⟩,
   ⟨text "pci_name=", .str, 10⟩]

/-- The second one. -/
def boardFormat : Format :=
  [⟨text "board_fw_vers=", .str, 10⟩,
   ⟨text "board_poc=0x", .num 16 8, 10⟩,
   ⟨text "board_dram=", .num 10 0, 46⟩, ⟨[], .num 10 2, 32⟩, ⟨text "GB(", .str, 41⟩,
   ⟨text "\nboard_bld_vers=", .num 10 0, 46⟩, ⟨[], .num 10 2, 10⟩]

/-! What the readers put into their buffer -/

def pcieStatusReadEntry (size : Nat) (e : Entry) : Text :=
  scnprintf size (print statusFormat (pcieStateStr e.state, ()))

def pciSlot (devfn : BitVec 8) : BitVec 8 := (devfn >>> 3) &&& 0x1f

def pciFunc (devfn : BitVec 8) : BitVec 8 := devfn &&& 7

def devInfoArgs (state : DevState) (domain : BitVec 16) (bus devfn : BitVec 8)
    (vendor device : BitVec 32) (pciNm : Text) : Args devInfoFormat :=
  (pcieStateStr state, domain.toNat, bus.toNat, (pciSlot devfn).toNat, (pciFunc devfn).toNat,
    (vendor.setWidth 16).toNat, (device.setWidth 16).toNat, pciNm, ())

def boardArgs (info : BoardInfo) : Args boardFormat :=
  (cString info.date.toList, info.poc.toNat, (info.dramSizeMb >>> 10).toNat,
    (info.dramSizeMb % 1024 * 100 / 1024).toNat, cString info.dramType.toList,
    (info.vers >>> 16).toNat, (info.vers &&& 0xffff).toNat, ())

def pcieFormatDevInfoProc (size : Nat) (info : DevInfo) (e : Entry) (domain : BitVec 16)
    (bus devfn : BitVec 8) (pciNm : Text) : Text :=
  let head := scnprintf size
    (print devInfoFormat (devInfoArgs info.state domain bus devfn info.vendor info.device pciNm))
  head ++ scnprintf (size - head.length) (print boardFormat (boardArgs e.boardInfo))

/-- `pcie_dev_info_read_entry` after its query. `pciName` is `pci_name` of the PCI core. -/
def pcieDevInfoText (pciName : PciDev → Text) (size : Nat) (info : DevInfo) (e : Entry) : Text :=
  match e.pdev with
  | some pdev =>
      pcieFormatDevInfoProc size info e (pdev.domain.setWidth 16) pdev.bus pdev.devfn (pciName pdev)
  | none => pcieFormatDevInfoProc size info e 0 e.phySlot.bus 0 (text "(offline)")

def invalidText (size : Nat) : Text := scnprintf size (text "invalid\n")

/-- `net` of `pcie_net_read_entry`, when it has been filled. -/
def netText (size : Nat) (net : Text) : Text := scnprintf size (print [⟨[], .str, 10⟩] (net, ()))

/-- `simple_read_from_buffer` up to its copy: what it copies to user space. -/
def simpleReadPiece (nbytes ppos : Nat) (buffer : Text) : Text :=
  (buffer.drop ppos).take nbytes

/-! Scanning -/

/-- A reader of the node: both halves, and nothing after them. -/
def scanDevInfo (s : Text) : Option (Args devInfoFormat × Args boardFormat) :=
  match scan devInfoFormat s with
  | none => none
  | some (device, rest) =>
      match scan boardFormat rest with
      | some (board, []) => some (device, board)
      | _ => none

theorem pcieStateStr_line (state : DevState) :
    10 ∉ pcieStateStr state ∧ (pcieStateStr state).length ≤ 12 := by
  cases state with
  | _ => decide

theorem devInfoArgs_fits (state : DevState) (domain : BitVec 16) (bus devfn : BitVec 8)
    (vendor device : BitVec 32) {pciNm : Text} (line : 10 ∉ pciNm) :
    Fits devInfoFormat (devInfoArgs state domain bus devfn vendor device pciNm) :=
  ⟨(pcieStateStr_line state).1, Conv.num_fits (by decide), Conv.num_fits (by decide),
    Conv.num_fits (by decide), Conv.num_fits (by decide), Conv.num_fits (by decide),
    Conv.num_fits (by decide), line, trivial⟩

theorem boardArgs_fits {info : BoardInfo} (date : 10 ∉ cString info.date.toList)
    (dram : 41 ∉ cString info.dramType.toList) : Fits boardFormat (boardArgs info) :=
  ⟨date, Conv.num_fits (by decide), Conv.num_fits (by decide), Conv.num_fits (by decide), dram,
    Conv.num_fits (by decide), Conv.num_fits (by decide), trivial⟩

theorem toNat_lt_hex (width : Nat) (value : BitVec (4 * width)) : value.toNat < 16 ^ width := by
  have bound := value.isLt
  rwa [Nat.pow_mul] at bound

theorem cString_length {size : Nat} (field : Vector Byte size) :
    (cString field.toList).length ≤ size := by
  have short := (List.takeWhile_prefix _ : cString field.toList <+: field.toList).length_le
  rwa [Vector.length_toList] at short

/-- The board info of any card fits into the second half. -/
theorem boardArgs_length (info : BoardInfo) :
    (print boardFormat (boardArgs info)).length ≤ 160 := by
  have date : (cString info.date.toList).length ≤ 32 := cString_length _
  have dram : (cString info.dramType.toList).length ≤ 8 := cString_length _
  have decimal : ∀ value : BitVec 32, value.toNat < 10 ^ 10 := fun value => by
    have bound := value.isLt
    omega
  have within : Within boardFormat [32, 8, 10, 10, 8, 10, 10] (boardArgs info) :=
    ⟨date, ⟨by decide, toNat_lt_hex 8 info.poc, by decide, by decide⟩,
      ⟨by decide, decimal _, by decide, by decide⟩, ⟨by decide, decimal _, by decide, by decide⟩,
      dram, ⟨by decide, decimal _, by decide, by decide⟩,
      ⟨by decide, decimal _, by decide, by decide⟩, trivial⟩
  exact Nat.le_trans (print_length within) (by decide)

theorem devInfoArgs_length (state : DevState) (domain : BitVec 16) (bus devfn : BitVec 8)
    (vendor device : BitVec 32) (pciNm : Text) :
    (print devInfoFormat (devInfoArgs state domain bus devfn vendor device pciNm)).length ≤
      128 + pciNm.length := by
  have within : Within devInfoFormat [12, 4, 2, 2, 2, 4, 4, pciNm.length]
      (devInfoArgs state domain bus devfn vendor device pciNm) :=
    ⟨(pcieStateStr_line state).2,
      ⟨by decide, toNat_lt_hex 4 domain, by decide, by decide⟩,
      ⟨by decide, toNat_lt_hex 2 bus, by decide, by decide⟩,
      ⟨by decide, toNat_lt_hex 2 _, by decide, by decide⟩,
      ⟨by decide, toNat_lt_hex 2 _, by decide, by decide⟩,
      ⟨by decide, toNat_lt_hex 4 _, by decide, by decide⟩,
      ⟨by decide, toNat_lt_hex 4 _, by decide, by decide⟩, Nat.le_refl _, trivial⟩
  refine Nat.le_trans (print_length within) ?_
  have fixed : room devInfoFormat [12, 4, 2, 2, 2, 4, 4, pciNm.length] =
      room devInfoFormat [12, 4, 2, 2, 2, 4, 4, 0] + pciNm.length := by
    simp only [devInfoFormat, room, Nat.add_zero]
    omega
  have small : room devInfoFormat [12, 4, 2, 2, 2, 4, 4, 0] ≤ 128 := by decide
  omega

end AmbaPci

import AmbaPci.ReadSnapshots

set_option autoImplicit false

/- The text of "dev_info" for every table the driver reaches: it is whole, and says what the entry
holds. -/
namespace AmbaPci

open ByteMemory (Byte)
open TextFormat

/-- What the PCI core says of `pci_name`: one line, and short. -/
structure PciNames (pciName : PciDev → Text) : Prop where
  line : ∀ pdev, 10 ∉ pciName pdev
  short : ∀ pdev, (pciName pdev).length ≤ 64

/-- What the first half prints of an entry. -/
def slotArgs (pciName : PciDev → Text) (e : Entry) : Args devInfoFormat :=
  match e.pdev with
  | some pdev => devInfoArgs e.state (pdev.domain.setWidth 16) pdev.bus pdev.devfn
      (pdev.vendor.setWidth 32) (pdev.device.setWidth 32) (pciName pdev)
  | none => devInfoArgs e.state 0 e.phySlot.bus 0 0 0 (text "(offline)")

theorem boardFormat_ends : ∀ field ∈ boardFormat, field.conv.Ends field.stop := by
  simp only [boardFormat, List.mem_cons, List.not_mem_nil, or_false, forall_eq_or_imp, forall_eq,
    Conv.Ends]
  decide

theorem boardArgs_fits_iff (info : BoardInfo) : Fits boardFormat (boardArgs info) ↔
    10 ∉ cString info.date.toList ∧ 41 ∉ cString info.dramType.toList :=
  ⟨fun fits => ⟨fits.1, fits.2.2.2.2.1⟩, fun lines => boardArgs_fits lines.1 lines.2⟩

/-- Both halves fit into the buffer, so neither is cut. -/
theorem pcieFormatDevInfoProc_whole {size : Nat} {info : DevInfo} {e : Entry}
    {domain : BitVec 16} {bus devfn : BitVec 8} {pciNm : Text} (short : pciNm.length ≤ 64)
    (room : 512 ≤ size) :
    pcieFormatDevInfoProc size info e domain bus devfn pciNm =
      print devInfoFormat (devInfoArgs info.state domain bus devfn info.vendor info.device pciNm) ++
        print boardFormat (boardArgs e.boardInfo) := by
  have head := devInfoArgs_length info.state domain bus devfn info.vendor info.device pciNm
  have board := boardArgs_length e.boardInfo
  unfold pcieFormatDevInfoProc
  rw [scnprintf_fits (by omega)]
  dsimp only
  rw [scnprintf_fits (by omega)]

theorem slotText_whole {pciName : PciDev → Text} (names : PciNames pciName)
    (index : Fin ambaPciDevMax) (e : Entry) :
    slotText pciName index e =
      print devInfoFormat (slotArgs pciName e) ++ print boardFormat (boardArgs e.boardInfo) := by
  unfold slotText pcieDevInfoText slotArgs slotInfo
  cases attached : e.pdev with
  | none => exact pcieFormatDevInfoProc_whole (by decide) (by decide)
  | some pdev => exact pcieFormatDevInfoProc_whole (names.short pdev) (by decide)

theorem slotArgs_fits {pciName : PciDev → Text} (names : PciNames pciName) (e : Entry) :
    Fits devInfoFormat (slotArgs pciName e) := by
  unfold slotArgs
  split
  · exact devInfoArgs_fits _ _ _ _ _ _ (names.line _)
  · exact devInfoArgs_fits _ _ _ _ _ _ (by decide)

theorem slotText_length {pciName : PciDev → Text} (names : PciNames pciName)
    (index : Fin ambaPciDevMax) (e : Entry) : (slotText pciName index e).length < pageSize := by
  have board := boardArgs_length e.boardInfo
  have head : (print devInfoFormat (slotArgs pciName e)).length ≤ 192 := by
    unfold slotArgs
    split
    · rename_i pdev _
      exact Nat.le_trans (devInfoArgs_length _ _ _ _ _ _ _) (by have := names.short pdev; omega)
    · exact Nat.le_trans (devInfoArgs_length _ _ _ _ _ _ _) (by decide)
  rw [slotText_whole names, List.length_append]
  have page : pageSize = 4096 := rfl
  omega

theorem scanDevInfo_iff {device : Args devInfoFormat} (fits : Fits devInfoFormat device)
    (board : Args boardFormat) :
    scanDevInfo (print devInfoFormat device ++ print boardFormat board) = some (device, board) ↔
      Fits boardFormat board := by
  unfold scanDevInfo
  rw [scan_print fits]
  dsimp only
  constructor
  · intro scanned
    split at scanned
    · rename_i board' scanned'
      cases scanned
      exact scan_fits boardFormat_ends scanned'
    · cases scanned
  · intro fits'
    have whole := scan_print fits' []
    rw [List.append_nil] at whole
    rw [whole]

/-- In every table the driver reaches the strings of the board info end inside their fields, the
text of "dev_info" is the whole of its two halves and shorter than its page, and it reads back as
the values of the entry exactly when neither string of the board info holds the byte after it in the
text. -/
theorem dev_info_text (t : Timing) (pciName : PciDev → Text) (names : PciNames pciName)
    (s : Platform) (reachable : Reachable anyReply t s) (index : Fin ambaPciDevMax) :
    (s.devs index).boardInfo.Terminated ∧
      slotText pciName index (s.devs index) =
        print devInfoFormat (slotArgs pciName (s.devs index)) ++
          print boardFormat (boardArgs (s.devs index).boardInfo) ∧
      (slotText pciName index (s.devs index)).length < pageSize ∧
      (scanDevInfo (slotText pciName index (s.devs index)) =
          some (slotArgs pciName (s.devs index), boardArgs (s.devs index).boardInfo) ↔
        10 ∉ cString (s.devs index).boardInfo.date.toList ∧
          41 ∉ cString (s.devs index).boardInfo.dramType.toList) := by
  refine ⟨(reachable_always reachable index).board, slotText_whole names index _,
    slotText_length names index _, ?_⟩
  rw [slotText_whole names, scanDevInfo_iff (slotArgs_fits names _), boardArgs_fits_iff]

/-- "%04x:%02x:%02x.%d", as the PCI core names a device. -/
def busName (pdev : PciDev) : Text :=
  print [⟨[], .num 16 4, 58⟩, ⟨[], .num 16 2, 58⟩, ⟨[], .num 16 2, 46⟩]
    (pdev.domain.toNat, pdev.bus.toNat, (pciSlot pdev.devfn).toNat, ()) ++
      numeral 10 0 (pciFunc pdev.devfn).toNat

theorem numeral_line {base : Nat} (based : 2 ≤ base ∧ base ≤ 16) (width n : Nat) :
    (10#8 : Byte) ∉ numeral base width n := by
  have fits : Conv.Fits (.num base width) 10#8 n := ⟨based.1, based.2, by decide⟩
  exact Conv.print_stop fits

theorem busName_names : PciNames busName where
  line pdev := by
    simp [busName, print, Conv.print, numeral_line]
  short pdev := by
    have within : Within [⟨[], .num 16 4, 58⟩, ⟨[], .num 16 2, 58⟩, ⟨[], .num 16 2, 46⟩] [8, 2, 2]
        (pdev.domain.toNat, pdev.bus.toNat, (pciSlot pdev.devfn).toNat, ()) :=
      ⟨⟨by decide, toNat_lt_hex 8 pdev.domain, by decide, by decide⟩,
        ⟨by decide, toNat_lt_hex 2 pdev.bus, by decide, by decide⟩,
        ⟨by decide, toNat_lt_hex 2 _, by decide, by decide⟩, trivial⟩
    have place : _ ≤ 15 := Nat.le_trans (print_length within) (by decide)
    have small : (pciFunc pdev.devfn).toNat < 10 ^ 3 := by
      have byte := (pciFunc pdev.devfn).isLt
      omega
    have function : (numeral 10 0 (pciFunc pdev.devfn).toNat).length ≤ 3 :=
      numeral_length (by decide) small (by decide) (by decide)
    unfold busName
    rw [List.length_append]
    omega

/-- Its board info names a DRAM type "DDR4" and the date "2026". -/
def boardReply : (op : Op) → Option op.Reply
  | .readl .readBoardInfo _ off =>
      some (if off = rhBdOff + 8 then 7 else if off = rhBdOff + 12 then 2048
        else if off = rhBdOff + 16 then 0x34524444 else if off = rhBdOff + 24 then 0x36323032
        else 0)
  | op => promptReply op

/-- A boot-ROM card is in slot 0, and a query has read its board info. -/
def boardTable : Platform :=
  (driveEvents boardReply ⟨1000, 1⟩ [.add (cardAt 1 1 ambaPciTargetDeviceId), .query]
    (platformInit true)).getD (platformInit true)

theorem boardTable_reachable : Reachable anyReply ⟨1000, 1⟩ boardTable :=
  driveEvents_reachable boardReply (fun _ _ _ => trivial)
    [.add (cardAt 1 1 ambaPciTargetDeviceId), .query] (.init true) (by rfl)

theorem dev_info_text_board :
    cString (boardTable.devs 0).boardInfo.dramType.toList = text "DDR4" ∧
      cString (boardTable.devs 0).boardInfo.date.toList = text "2026" ∧
      scanDevInfo (slotText busName 0 (boardTable.devs 0)) =
        some (slotArgs busName (boardTable.devs 0), boardArgs (boardTable.devs 0).boardInfo) := by
  have dramType : cString (boardTable.devs 0).boardInfo.dramType.toList = text "DDR4" := by
    decide +kernel
  have date : cString (boardTable.devs 0).boardInfo.date.toList = text "2026" := by
    decide +kernel
  refine ⟨dramType, date, ?_⟩
  apply (dev_info_text ⟨1000, 1⟩ busName busName_names boardTable boardTable_reachable 0).2.2.2.mpr
  rw [dramType, date]
  decide

end AmbaPci

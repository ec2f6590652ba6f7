import AmbaPci.UnlockedReads

set_option autoImplicit false

/- What user space is shown of the table: the record of QUERY_PLATFORM_INFO and the text of
"dev_info", as functions of one table. -/
namespace AmbaPci

open ByteMemory (Byte)
open Interaction
open Interaction.Prog (Returns returns_done_iff returns_bind_iff)
open TextFormat

/-! The record and the text of a table -/

/-- The record of one slot. -/
def slotInfo (index : Fin ambaPciDevMax) (e : Entry) : DevInfo where
  id := e.id
  slotId := BitVec.ofNat 32 index.val
  state := e.state
  isValid := if e.inUse then 1 else 0
  poc := if e.boardInfoIsUpdated then e.boardInfo.poc else 0
  dramSizeMb := if e.boardInfoIsUpdated then e.boardInfo.dramSizeMb else 0
  vendor := (e.pdev.map fun pdev => pdev.vendor.setWidth 32).getD 0
  device := (e.pdev.map fun pdev => pdev.device.setWidth 32).getD 0
  dramType := if e.boardInfoIsUpdated then cString e.boardInfo.dramType.toList else []
  fwVers := if e.boardInfoIsUpdated then cString e.boardInfo.date.toList else []

/-- The record of the whole table, and how many slots are in use. -/
def platformInfo (s : Platform) : PlatformInfo where
  version := 1
  devNum := BitVec.ofNat 32 ((List.finRange ambaPciDevMax).countP fun index => (s.devs index).inUse)
  devs := (List.finRange ambaPciDevMax).map fun index => slotInfo index (s.devs index)

/-- The text of a slot's "dev_info". -/
def slotText (pciName : PciDev → Text) (index : Fin ambaPciDevMax) (e : Entry) : Text :=
  pcieDevInfoText pciName pageSize (slotInfo index e) e

/-! Strings that end inside their field -/

theorem takeWhile_init {field : List Byte} {last : Byte} (ends : last = 0) :
    (field ++ [last]).takeWhile (· ≠ 0) = field.takeWhile (· ≠ 0) := by
  subst ends
  induction field with
  | nil => rfl
  | cons c rest ih =>
      simp only [List.cons_append, List.takeWhile_cons, ih]

/-- A field whose last byte is NUL holds a string that is shorter than the field. -/
theorem cString_lt {size : Nat} (field : Vector Byte (size + 1)) (ends : field[size] = 0) :
    (cString field.toList).length ≤ size := by
  have whole : field.toList = field.toList.take size ++ [field[size]] := by
    have split := List.take_append_drop size field.toList
    have last : field.toList.drop size = [field[size]] := by
      rw [List.drop_eq_getElem_cons (by simp), List.drop_eq_nil_of_le (by simp)]
      simp
    rw [last] at split
    exact split.symm
  unfold cString
  rw [whole, takeWhile_init ends]
  have short := (List.takeWhile_prefix (· ≠ (0 : Byte)) (l := field.toList.take size)).length_le
  have cut := List.length_take_le size field.toList
  omega

/-- `strscpy` cuts nothing off such a string. -/
theorem strscpy32_eq {source : List Byte} (short : (cString source).length ≤ 31) :
    strscpy32 source = cString source := List.take_of_length_le short

theorem BoardInfo.Terminated.lengths {info : BoardInfo} (ends : info.Terminated) :
    (cString info.dramType.toList).length ≤ 7 ∧ (cString info.date.toList).length ≤ 31 :=
  ⟨cString_lt info.dramType ends.1, cString_lt info.date ends.2⟩

/-! What the sections return -/

variable {t : Timing} {allow : (op : Op) → op.Reply → Prop}

theorem reachable_always {s : Platform} (reachable : Reachable anyReply t s) : Always s := by
  obtain ⟨procRoot, pool, run, shows⟩ := shows_reachable (fun _ => []) reachable
  have always := driverRun_always run
  rwa [shows.shared] at always

theorem pcieQueryDevInfoLocked_info {index : Fin ambaPciDevMax} {e e' : Entry} {info : DevInfo}
    (valid : SlotInvariant index e) (ends : e'.boardInfo.Terminated)
    (returned : Returns allow (pcieQueryDevInfoLocked e index.val) (info, e')) :
    info = slotInfo index e' := by
  unfold pcieQueryDevInfoLocked at returned
  dsimp only at returned
  split at returned
  · rename_i unused
    cases (returns_done_iff _ _).mp returned
    have free : e.inUse = false := by simpa using unused
    obtain ⟨detached, -, -, -, stale⟩ := valid.unused free
    unfold slotInfo
    rw [detached, stale, free]
    rfl
  · rename_i unfree
    have used : e.inUse = true := by simpa using unfree
    obtain ⟨⟨ret, refreshed⟩, first, returned⟩ := (returns_bind_iff _ _ _).mp returned
    cases (returns_done_iff _ _).mp returned
    have change := (pcieDevRefreshBoardInfoLocked_returns first).1
    obtain ⟨dram, date⟩ := ends.lengths
    dsimp only at dram date ⊢
    unfold slotInfo
    rw [change.id, change.state, change.inUse, used]
    cases refreshed.pdev with
    | _ =>
        cases refreshed.boardInfoIsUpdated with
        | false => rfl
        | true =>
            simp only [↓reduceIte, strscpy32_eq date,
              strscpy32_eq (Nat.le_trans dram (by decide : (7 : Nat) ≤ 31))]
            rfl

theorem queryDevs_other {slots : List (Fin ambaPciDevMax)} {index : Fin ambaPciDevMax}
    (absent : index ∉ slots) {s s' : Platform} {infos : List DevInfo}
    (returned : Returns allow (queryDevs slots s) (infos, s')) : s'.devs index = s.devs index := by
  induction slots generalizing s infos with
  | nil =>
      cases (returns_done_iff _ _).mp returned
      rfl
  | cons slot rest ih =>
      obtain ⟨⟨info, e'⟩, first, returned⟩ := (returns_bind_iff _ _ _).mp returned
      obtain ⟨⟨more, s₁⟩, second, returned⟩ := (returns_bind_iff _ _ _).mp returned
      cases (returns_done_iff _ _).mp returned
      have apart : index ≠ slot := fun same => absent (same ▸ List.mem_cons_self)
      have later : index ∉ rest := fun member => absent (List.mem_cons_of_mem _ member)
      rw [ih later second, Platform.setDev_other _ _ _ _ apart]

/-- Each slot's record is that of the entry that the whole query leaves. -/
theorem queryDevs_infos {slots : List (Fin ambaPciDevMax)} (once : slots.Nodup) {s s' : Platform}
    {infos : List DevInfo} (valid : ∀ index ∈ slots, SlotInvariant index (s.devs index))
    (always : Always s') (returned : Returns allow (queryDevs slots s) (infos, s')) :
    infos = slots.map fun index => slotInfo index (s'.devs index) := by
  induction slots generalizing s infos with
  | nil =>
      cases (returns_done_iff _ _).mp returned
      rfl
  | cons slot rest ih =>
      obtain ⟨⟨info, e'⟩, first, returned⟩ := (returns_bind_iff _ _ _).mp returned
      obtain ⟨⟨more, s₁⟩, second, returned⟩ := (returns_bind_iff _ _ _).mp returned
      cases (returns_done_iff _ _).mp returned
      obtain ⟨absent, later⟩ := List.nodup_cons.mp once
      have kept := queryDevs_other absent second
      rw [Platform.setDev_same] at kept
      have ends := (always slot).board
      rw [kept] at ends
      have here := pcieQueryDevInfoLocked_info (valid slot List.mem_cons_self) ends first
      have valid' : ∀ index ∈ rest, SlotInvariant index ((s.setDev slot e').devs index) := by
        intro index member
        have apart : index ≠ slot := fun same => absent (same ▸ member)
        rw [Platform.setDev_other _ _ _ _ apart]
        exact valid index (List.mem_cons_of_mem _ member)
      rw [List.map_cons, ← ih later valid' second, here, kept]

theorem pcieQueryPlatformInfoLocked_infos {s s' : Platform} {infos : List DevInfo}
    (reachable : Reachable anyReply t s)
    (returned : Returns anyReply (pcieQueryPlatformInfoLocked s) (infos, s')) :
    (⟨1, BitVec.ofNat 32 (infos.countP fun info => info.isValid ≠ 0), infos⟩ : PlatformInfo) =
      platformInfo s' := by
  have after : Reachable anyReply t s' := reachable.step (.query returned)
  have valid : ∀ index ∈ List.finRange ambaPciDevMax, SlotInvariant index (s.devs index) :=
    fun index _ => reachable.slotInvariant index
  have same := queryDevs_infos (List.nodup_finRange _) valid (reachable_always after) returned
  subst same
  unfold platformInfo
  rw [List.countP_map]
  congr 3
  funext index
  cases used : (s'.devs index).inUse with
  | _ => simp [slotInfo, used]

theorem pcieDevInfoReadLocked_text (pciName : PciDev → Text) {index : Fin ambaPciDevMax}
    {s s' : Platform} {info : DevInfo} (reachable : Reachable anyReply t s)
    (returned : Returns anyReply (pcieDevInfoReadLocked index s) (info, s')) :
    pcieDevInfoText pciName pageSize info (s'.devs index) =
      slotText pciName index (s'.devs index) := by
  have after : Reachable anyReply t s' := reachable.step (.devInfo returned)
  obtain ⟨⟨info', e'⟩, first, returned⟩ := (returns_bind_iff _ _ _).mp returned
  cases (returns_done_iff _ _).mp returned
  have ends := (reachable_always after index).board
  rw [Platform.setDev_same] at ends ⊢
  unfold slotText
  rw [pcieQueryDevInfoLocked_info (reachable.slotInvariant index) ends first]

/-! Interleavings -/

/-- The surroundings move timers and work functions, which nothing that is shown depends on. -/
theorem drift_seen {s s' : Platform} (moved : accessMachine.Drift s s')
    (index : Fin ambaPciDevMax) : (s'.devs index).seen = (s.devs index).seen := by
  induction moved with
  | refl => rfl
  | tail _ last ih => exact ((TimerMove.seen last).1 index).trans ih

theorem slotInfo_seen {index : Fin ambaPciDevMax} {e e' : Entry} (same : e'.seen = e.seen) :
    slotInfo index e' = slotInfo index e := by
  have whole : ∀ e : Entry, slotInfo index e = slotInfo index e.seen := fun _ => rfl
  rw [whole e', same, ← whole e]

theorem slotText_seen (pciName : PciDev → Text) {index : Fin ambaPciDevMax} {e e' : Entry}
    (same : e'.seen = e.seen) : slotText pciName index e' = slotText pciName index e := by
  have whole : ∀ e : Entry, slotText pciName index e = slotText pciName index e.seen := fun _ => rfl
  rw [whole e', same, ← whole e]

theorem drift_platformInfo {s s' : Platform} (moved : accessMachine.Drift s s') :
    platformInfo s' = platformInfo s := by
  have infos : ∀ index, slotInfo index (s'.devs index) = slotInfo index (s.devs index) :=
    fun index => slotInfo_seen (drift_seen moved index)
  have used : ∀ index, (s'.devs index).inUse = (s.devs index).inUse := fun index =>
    show (s'.devs index).seen.inUse = _ by rw [drift_seen moved index]; rfl
  unfold platformInfo
  simp only [infos, used]

variable {procRoot : Bool}

theorem whole_query {devs : List DevInfo} {s : Platform}
    (whole : Whole accessMachine (DriverSection t) (platformInit procRoot) _
      Access.pcieQueryPlatformInfoLocked devs s) :
    (⟨1, BitVec.ofNat 32 (devs.countP fun info => info.isValid ≠ 0), devs⟩ : PlatformInfo) =
      platformInfo s := by
  obtain ⟨s₁, s₂, -, reached, ran, moved⟩ := whole
  have returned := Access.alone_returns ran
  unfold Access.pcieQueryPlatformInfoLocked at returned
  rw [Access.queryDevs_run] at returned
  rw [drift_platformInfo moved]
  exact pcieQueryPlatformInfoLocked_infos (sectionMoves_reachable (.init procRoot) reached) returned

theorem whole_devInfo (pciName : PciDev → Text) {index : Fin ambaPciDevMax}
    {result : DevInfo × Entry} {s : Platform}
    (whole : Whole accessMachine (DriverSection t) (platformInit procRoot) _
      (Access.pcieDevInfoReadLocked index) result s) :
    pcieDevInfoText pciName pageSize result.1 result.2 =
      slotText pciName index (s.devs index) := by
  obtain ⟨s₁, s₂, -, reached, ran, moved⟩ := whole
  obtain ⟨e', queried, rfl⟩ :=
    Access.pcieDevInfoReadLocked_run.returns_iff.mp (Access.alone_returns ran)
  obtain ⟨⟨info, e''⟩, answered, same⟩ := (Prog.returns_map_iff _ _ _).mp queried
  cases same
  have read : (pcieDevInfoReadLocked index s₁).Returns anyReply (info, s₁.setDev index e'') :=
    (returns_bind_iff _ _ _).mpr ⟨(info, e''), answered, .done _⟩
  have reachable := sectionMoves_reachable (.init procRoot) reached
  rw [slotText_seen pciName (drift_seen moved index),
    ← pcieDevInfoReadLocked_text pciName reachable read, Platform.setDev_same]
  rfl

/-- What is copied to user space shows one of these tables, the text of "dev_info" a slot of it. -/
def FreeOp.ShowsTable (pciName : PciDev → Text) (tables : Platform → Prop) : FreeOp → Prop
  | .copyInfo info => ∃ s, tables s ∧ info = platformInfo s
  | .copyToUser index .devInfo bytes => ∃ (s : Platform) (nbytes ppos : Nat),
      tables s ∧ bytes = simpleReadPiece nbytes ppos (slotText pciName index (s.devs index))
  | _ => True

/-- The table at a moment at which the thread held the lock, in its call that is under way at moment
`n`. -/
def LockedTable (pools : Nat → DriverPool) (tid n : Nat) (s : Platform) : Prop :=
  ∃ i, Pool.InCall pools tid i n ∧ (pools i).shared.owner = some tid ∧ (pools i).shared.state = s

/-- However the threads interleave, a QUERY_PLATFORM_INFO record and a text of "dev_info" show what
the slots held all at one moment of this run, between the lock that the call has taken and the
copy. -/
theorem reads_show_one_table (t : Timing) (pciName : PciDev → Text) (procRoot : Bool)
    (pools : Nat → DriverPool) (n : Nat) (history : DriverHistory t pciName procRoot pools n)
    (tid : Nat) (op : FreeOp) (next : op.Reply → DriverCode Unit)
    (turn : (pools n).threads tid = .call (.outer op) next) :
    op.ShowsTable pciName (LockedTable pools tid n) := by
  have copies := driverHistory_copies history turn
  cases op with
  | copyInfo info =>
      obtain ⟨devs, ⟨i, call, held, whole⟩, rfl⟩ := copies
      exact ⟨_, ⟨i, call, held, rfl⟩, whole_query whole⟩
  | copyToUser index node bytes =>
      cases node with
      | devInfo =>
          obtain ⟨result, nbytes, ppos, ⟨i, call, held, whole⟩, rfl⟩ := copies
          exact ⟨_, nbytes, ppos, ⟨i, call, held, rfl⟩, by rw [whole_devInfo pciName whole]⟩
      | _ => trivial
  | _ => trivial

/-- QUERY_PLATFORM_INFO takes its section and comes to the copy of its record. -/
theorem query_turn {s s' : Platform} {devs : List DevInfo}
    (returned : Returns anyReply (pcieQueryPlatformInfoLocked s) (devs, s')) (tid : Nat) :
    ∃ next, (Pool.solo driverSystem tid).Steps
      (DriverCode.call (DriverCode.pcieIoctlQueryPlatformInfo 1), ⟨none, s⟩)
      (.call (.outer (.copyInfo
        ⟨1, BitVec.ofNat 32 (devs.countP fun info => info.isValid ≠ 0), devs⟩)) next,
        ⟨none, s'⟩) := by
  have proper := Access.queryDevs_proper (List.finRange ambaPciDevMax)
  have ran := Access.alone_steps (s := s)
    ((Access.early_of_proper proper).mono fun _ => AccessOp.Early.stays)
    (by rw [Access.queryDevs_run]; exact returned)
  have locked := (underLock_solo tid ran).bind fun devs => do
    let validCount := devs.countP fun info => info.isValid ≠ 0
    let copied ← DriverCode.free (.copyInfo ⟨1, BitVec.ofNat 32 validCount, devs⟩)
    if copied = false then pure (-efault) else pure 0
  exact ⟨_, locked.bind fun _ => Prog.done ()⟩

def queriedRom : List DevInfo × Platform :=
  ((pcieQueryPlatformInfoLocked romTable).eval promptReply).getD ([], romTable)

theorem reads_show_one_table_rom :
    ∃ procRoot pools n tid next, DriverHistory ⟨1000, 1⟩ (fun _ => []) procRoot pools n ∧
      (pools n).threads tid = .call (.outer (.copyInfo ⟨1, 1, queriedRom.1⟩)) next ∧
      (FreeOp.copyInfo ⟨1, 1, queriedRom.1⟩).ShowsTable (fun _ => [])
        (LockedTable pools tid n) := by
  have returned : Returns anyReply (pcieQueryPlatformInfoLocked romTable)
      (queriedRom.1, queriedRom.2) :=
    Prog.eval_getD_returns promptReply (fun _ _ _ => trivial) _ ([], romTable) (by rfl)
  have takes := query_turn returned
  have valid : queriedRom.1.countP (fun info => info.isValid ≠ 0) = 1 := by decide +kernel
  rw [valid] at takes
  obtain ⟨procRoot, pool, run, shows⟩ := shows_reachable (fun _ => []) romTable_reachable
  obtain ⟨pool', tid, next, run', turn⟩ := shows.turn run (.query 1) takes
  obtain ⟨pools, n, history, rfl⟩ := run'.history
  exact ⟨procRoot, pools, n, tid, next, history, turn,
    reads_show_one_table _ _ _ _ n history tid _ next turn⟩

end AmbaPci

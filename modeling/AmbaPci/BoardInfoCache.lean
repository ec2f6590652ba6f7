import AmbaPci.EpStartup
import AmbaPci.HotplugIsolation
import AmbaPci.HotplugRules
import AmbaPci.SlotLifecycle
import AmbaPci.XferRules

set_option autoImplicit false

/- Whether the cached board info of a slot is what its endpoint has published. -/
namespace AmbaPci

open ByteMemory
open Interaction Interaction.Prog Interaction.Machine

variable {slotOf : Mapping → Option (Fin ambaPciDevMax)} {index : Fin ambaPciDevMax}

/-- The cached board info of an entry is the published one, both strings cut at their last byte. -/
def CachesPublished (bar : Memory) (e : Entry) : Prop :=
  e.boardInfoIsUpdated = true →
    BoardPublished bar ∧ e.boardInfo = BoardInfo.ofWords (boardWords bar)

instance (bar : Memory) (e : Entry) : Decidable (CachesPublished bar e) :=
  inferInstanceAs (Decidable (_ → _))

/-- The invariant of one entry beside the BAR of its slot. -/
structure Synced (slotOf : Mapping → Option (Fin ambaPciDevMax)) (index : Fin ambaPciDevMax)
    (bar : Memory) (e : Entry) : Prop where
  bus : ∀ pdev, e.pdev = some pdev → pdev.bus = (pciePhysicalSlots index).bus
  mapped : ∀ base, e.bootMemBase = some base → slotOf base = some index
  cached : CachesPublished bar e

theorem Synced.drift {bar bar' : Memory} {e : Entry} (synced : Synced slotOf index bar e)
    (kept : BoardPublished bar → HeaderKept bar bar') : Synced slotOf index bar' e where
  bus := synced.bus
  mapped := synced.mapped
  cached updated := by
    obtain ⟨published, info⟩ := synced.cached updated
    have header := kept published
    rw [header.2]
    exact ⟨header.published published, info⟩

/-- What the invariant reads of an entry. -/
theorem Synced.congr {bar : Memory} {e e' : Entry} (synced : Synced slotOf index bar e)
    (pdev : e'.pdev = e.pdev) (base : e'.bootMemBase = e.bootMemBase)
    (info : e'.boardInfo = e.boardInfo) (updated : e'.boardInfoIsUpdated = e.boardInfoIsUpdated) :
    Synced slotOf index bar e' where
  bus := by
    rw [pdev]
    exact synced.bus
  mapped := by
    rw [base]
    exact synced.mapped
  cached := by
    unfold CachesPublished
    rw [updated, info]
    exact synced.cached

/-- An entry that has neither mapped nor cached anything. -/
theorem Synced.fresh {bar : Memory} {e : Entry}
    (bus : ∀ pdev, e.pdev = some pdev → pdev.bus = (pciePhysicalSlots index).bus)
    (unmapped : e.bootMemBase = none) (stale : e.boardInfoIsUpdated = false) :
    Synced slotOf index bar e where
  bus := bus
  mapped base present := by rw [unmapped] at present; cases present
  cached updated := by rw [stale] at updated; cases updated

theorem Synced.added {bar : Memory} {mayFail : Prop} {pdev : PciDev} {id : BitVec 32}
    {e e' : Entry} (slot : getPciSlotId pdev = some index)
    (outcome : AddOutcome mayFail pdev index id e e') (synced : Synced slotOf index bar e) :
    Synced slotOf index bar e' := by
  have bus : ∀ other, some pdev = some other → other.bus = (pciePhysicalSlots index).bus := by
    rintro other ⟨⟩
    exact getPciSlotId_bus slot
  cases outcome with
  | ignored used untaken => exact synced
  | reconnected used booting card => exact ⟨bus, synced.mapped, synced.cached⟩
  | connected free card => exact .fresh bus rfl rfl
  | initialized free card unbooted => exact .fresh bus rfl rfl
  | unsupported free unbooted other => exact synced
  | failed _ free card _ undone =>
      rcases undone with rfl | ⟨name, rfl⟩
      · exact synced
      · exact synced.congr rfl rfl rfl rfl

theorem Synced.removed {bar : Memory} {e e' : Entry} (outcome : DelOutcome e e')
    (synced : Synced slotOf index bar e) : Synced slotOf index bar e' := by
  cases outcome with
  | ignored free => exact synced
  | detached used booting =>
      unfold detached
      split
      · exact synced
      · exact ⟨fun _ none => (nomatch none), fun _ none => (nomatch none), synced.cached⟩
  | released used settled => exact .fresh (fun _ none => nomatch none) rfl rfl

/-- The invariant of the table. -/
def AllSynced (slotOf : Mapping → Option (Fin ambaPciDevMax)) (s : Platform) (w : EpWorld) : Prop :=
  ∀ index, Synced slotOf index (w index) (s.devs index)

theorem AllSynced.setDev {s : Platform} {w : EpWorld} {e' : Entry} (synced : AllSynced slotOf s w)
    (here : Synced slotOf index (w index) e') : AllSynced slotOf (s.setDev index e') w := by
  intro other
  by_cases same : other = index
  · subst same
    rw [Platform.setDev_same]
    exact here
  · rw [Platform.setDev_other s index other e' same]
    exact synced other

/-! One locked section -/

/-- The host beside the endpoints, as far as it reads board info only where it is published. -/
abbrev publishedMachine (slotOf : Mapping → Option (Fin ambaPciDevMax)) :
    Machine Op Op.Reply EpWorld := (epMachine slotOf).restrict (ReadsPublished slotOf)

abbrev anyAccess : EpWorld → Op → Prop := fun _ _ => True

theorem synced_stable (e : Entry) :
    (publishedMachine slotOf).Stable fun w => Synced slotOf index (w index) e := by
  intro w w' synced moved
  have step : (epMachine slotOf).interfere w w' := moved
  exact synced.drift fun published => epMachine_headerKept step published

theorem allSynced_stable (s : Platform) : (publishedMachine slotOf).Stable (AllSynced slotOf s) :=
  fun w w' synced moved index => synced_stable (s.devs index) w w' (synced index) moved

theorem synced_kept {e : Entry} {w w' : EpWorld} {op : Op} {reply : op.Reply}
    (spares : op.SparesHeader) (synced : Synced slotOf index (w index) e)
    (answered : (publishedMachine slotOf).answer w op reply w') :
    Synced slotOf index (w' index) e :=
  synced.drift fun _ => epAnswer_headerKept spares answered.2 index

/-- A program that spares the headers keeps the invariant of an entry. -/
theorem spares_wp {α : Type} {program : Host α} (calls : program.Calls Op.SparesHeader) {e : Entry}
    {w : EpWorld} (synced : Synced slotOf index (w index) e) :
    (publishedMachine slotOf).wp anyAccess (fun _ w' => Synced slotOf index (w' index) e)
      program w :=
  wp_calls (synced_stable e) (fun _ _ _ _ => trivial)
    (fun _ _ _ _ spares here answered => synced_kept spares here answered) calls synced

theorem spares_all {α : Type} {program : Host α} (calls : program.Calls Op.SparesHeader)
    {s : Platform} {w : EpWorld} (synced : AllSynced slotOf s w) :
    (publishedMachine slotOf).wp anyAccess (fun _ => AllSynced slotOf s) program w :=
  wp_calls (allSynced_stable s) (fun _ _ _ _ => trivial)
    (fun _ _ _ _ spares here answered index => synced_kept spares (here index) answered)
    calls synced

theorem Op.Prepares.sparesHeader {op : Op} (prepares : op.Prepares) : op.SparesHeader := by
  cases op with
  | writel | memcpyToio => exact prepares.elim
  | _ => trivial

theorem Op.Transfers.sparesHeader {op : Op} (transfers : op.Transfers) : op.SparesHeader := by
  rcases transfers with prepares | sends | stuck
  · exact prepares.sparesHeader
  · exact sends.2
  · subst stuck
    trivial

theorem Op.Hotplugs.sparesHeader {op : Op} (hotplugs : op.Hotplugs) : op.SparesHeader := by
  cases op with
  | writel | memcpyToio => exact hotplugs.elim
  | _ => trivial

/-! The board info is read -/

theorem boardWords_getElem (bar : Memory) {position : Nat} (inside : position < 14) :
    (boardWords bar)[position]? = some (load32 bar (rhBdOff + position * 4)) := by
  rw [boardWords, List.getElem?_map, List.getElem?_range inside]
  rfl

theorem holding_stable (words : List (BitVec 32)) : (publishedMachine slotOf).Stable fun w =>
    BoardPublished (w index) ∧ boardWords (w index) = words := by
  intro w w' holding moved
  have step : (epMachine slotOf).interfere w w' := moved
  have header := epMachine_headerKept step holding.1
  exact ⟨header.published holding.1, header.2.trans holding.2⟩

/-- Once the magic word is there, the words are read as they stay. -/
theorem pcieRingReadWords_holding {base : Mapping} (shows : slotOf base = some index)
    (words : List (BitVec 32)) {position count : Nat} (inside : position + count ≤ 14)
    {w : EpWorld} (holding : BoardPublished (w index) ∧ boardWords (w index) = words) :
    (publishedMachine slotOf).wp anyAccess
      (fun read w' => (BoardPublished (w' index) ∧ boardWords (w' index) = words) ∧
        read = (words.drop position).take count)
      (pcieRingReadWords base position count) w := by
  induction count generalizing position w with
  | zero => exact wp_done (holding_stable words) holding fun _ here => ⟨here, rfl⟩
  | succ count ih =>
      apply wp_perform (holding_stable words) holding (fun _ _ => trivial)
      intro w₁ word w₂ here answered
      obtain ⟨same, loaded⟩ := answered.2
      subst same
      have stands : words[position]? = some word := by
        rw [← here.2, boardWords_getElem _ (by omega), loaded index shows]
      apply wp_seq (ih (by omega) here)
      intro rest w₃ read
      refine wp_done (holding_stable words) read.1 fun w₄ here' => ⟨here', ?_⟩
      obtain ⟨below, value⟩ := List.getElem?_eq_some_iff.mp stands
      rw [read.2, List.drop_eq_getElem_cons below, List.take_succ_cons, value]

/-- The reading starts where the board info is published, so it reads what is published. -/
theorem pcieRingReadBoardInfo_published {base : Mapping} (shows : slotOf base = some index)
    (w : EpWorld) :
    (publishedMachine slotOf).wp anyAccess
      (fun bd w' => BoardPublished (w' index) ∧ bd = BoardInfo.ofWords (boardWords (w' index)))
      (pcieRingReadBoardInfo base) w := by
  have free : (publishedMachine slotOf).Stable fun _ => True := fun _ _ _ _ => trivial
  apply wp_bind
  apply wp_perform free trivial (fun _ _ => trivial)
  intro w₁ word w₂ _ answered
  obtain ⟨start, same, loaded⟩ := answered
  have published : BoardPublished (w₁ index) := start rfl index shows
  rw [same]
  have first : (boardWords (w₁ index))[0]? = some word := by
    rw [boardWords_getElem _ (by decide), loaded index shows]
  apply wp_seq (pcieRingReadWords_holding shows (boardWords (w₁ index)) (by decide)
    ⟨published, rfl⟩)
  intro rest w₃ read
  refine wp_done (holding_stable (boardWords (w₁ index))) read.1 fun w₄ here => ?_
  refine wp_done (holding_stable (boardWords (w₁ index))) here fun w₅ here' => ⟨here'.1, ?_⟩
  have whole : word :: rest = boardWords (w₁ index) := by
    obtain ⟨below, value⟩ := List.getElem?_eq_some_iff.mp first
    have length : (boardWords (w₁ index)).length = 14 := by simp [boardWords]
    have split := List.drop_eq_getElem_cons below
    rw [List.drop_zero, value] at split
    rw [read.2, List.take_of_length_le (by simp [length]), ← split]
  rw [whole, here'.2]

/-- A refresh maps the slot's own card and caches what is published. -/
theorem pcieDevRefreshBoardInfoLocked_synced {e : Entry} {w : EpWorld}
    (synced : Synced slotOf index (w index) e) :
    (publishedMachine slotOf).wp anyAccess
      (fun result w' => Synced slotOf index (w' index) result.2)
      (pcieDevRefreshBoardInfoLocked e) w := by
  have unchanged : ∀ ret : Int, (publishedMachine slotOf).wp anyAccess
      (fun result w' => Synced slotOf index (w' index) result.2) (.done (ret, e)) w :=
    fun ret => wp_done (synced_stable e) synced fun _ here => here
  unfold pcieDevRefreshBoardInfoLocked
  split
  · exact unchanged _
  · split
    · exact unchanged _
    · rename_i pdev attached
      have promised : ∀ w op reply w', (publishedMachine slotOf).answer w op reply w' →
          MapsSlot slotOf op reply := fun _ _ _ _ answered => epAnswer_mapsSlot answered.2
      have mapping := (refreshBootMapping_calls pdev e).mono fun _ => Op.Prepares.sparesHeader
      apply wp_seq (wp_returns_of promised (spares_wp mapping synced))
      rintro ⟨ret, e₁⟩ w₁ ⟨here, returned⟩
      have maps := refreshBootMapping_mapsBar returned
      have synced₁ : Synced slotOf index (w₁ index) e₁ := by
        refine ⟨?_, ?_, ?_⟩
        · rw [maps.attached]
          exact here.bus
        · intro base present
          rcases maps.origin base present with earlier | ⟨bar, length, made⟩
          · exact here.mapped base earlier
          · exact made base index rfl (here.bus pdev attached)
        · unfold CachesPublished
          rw [maps.updated, maps.boardInfo]
          exact here.cached
      dsimp only
      split
      · exact wp_done (synced_stable e₁) synced₁ fun _ here => here
      · split
        · rename_i base stale live
          have shows := synced₁.mapped base live
          apply wp_seq (pcieRingReadBoardInfo_published shows w₁)
          intro bd w₂ read
          have cached : Synced slotOf index (w₂ index)
              { e₁ with boardInfo := bd, boardInfoIsUpdated := true } :=
            ⟨synced₁.bus, synced₁.mapped, fun _ => read⟩
          exact wp_done (synced_stable _) cached fun _ here => here
        · exact wp_done (synced_stable e₁) synced₁ fun _ here => here

theorem pcieQueryDevInfoLocked_synced {e : Entry} (slot : Nat) {w : EpWorld}
    (synced : Synced slotOf index (w index) e) :
    (publishedMachine slotOf).wp anyAccess
      (fun result w' => Synced slotOf index (w' index) result.2)
      (pcieQueryDevInfoLocked e slot) w := by
  unfold pcieQueryDevInfoLocked
  dsimp only
  split
  · exact wp_done (synced_stable e) synced fun _ here => here
  · apply wp_seq (pcieDevRefreshBoardInfoLocked_synced synced)
    intro refreshed w₁ here
    exact wp_done (synced_stable refreshed.2) here fun _ here' => here'

/-- A section on one entry keeps the invariant of the table. -/
theorem allSynced_wp {α : Type} {program : Host (α × Entry)} {s : Platform} {w : EpWorld}
    (calls : program.Calls Op.SparesHeader) (synced : AllSynced slotOf s w)
    (here : (publishedMachine slotOf).wp anyAccess
      (fun result w' => Synced slotOf index (w' index) result.2) program w) :
    (publishedMachine slotOf).wp anyAccess
      (fun result w' => AllSynced slotOf (s.setDev index result.2) w') program w :=
  wp_mono (wp_and (spares_all calls synced) here) fun _ _ both => both.1.setDev both.2

theorem queryDevs_synced (slots : List (Fin ambaPciDevMax)) {s : Platform} {w : EpWorld}
    (synced : AllSynced slotOf s w) :
    (publishedMachine slotOf).wp anyAccess (fun result w' => AllSynced slotOf result.2 w')
      (queryDevs slots s) w := by
  have query : ∀ e slot, (pcieQueryDevInfoLocked e slot).Calls Op.SparesHeader :=
    fun e slot => (pcieQueryDevInfoLocked_calls e slot).mono fun _ => Op.Prepares.sparesHeader
  induction slots generalizing s w with
  | nil => exact wp_done (allSynced_stable s) synced fun _ here => here
  | cons slot rest ih =>
      apply wp_seq (allSynced_wp (query _ _) synced
        (pcieQueryDevInfoLocked_synced slot.val (synced slot)))
      intro first w₁ here
      apply wp_seq (ih here)
      intro others w₂ here'
      exact wp_done (allSynced_stable others.2) here' fun _ done => done

theorem pcieXferFirmwareLocked_synced (t : Timing) (req : FwXfer) {e : Entry} {w : EpWorld}
    (synced : Synced slotOf index (w index) e) :
    (publishedMachine slotOf).wp anyAccess
      (fun result w' => Synced slotOf index (w' index) result.2)
      (pcieXferFirmwareLocked t req e) w := by
  unfold pcieXferFirmwareLocked
  split
  · exact wp_done (synced_stable e) synced fun _ here => here
  · split
    · exact wp_done (synced_stable e) synced fun _ here => here
    · apply wp_seq (pcieDevRefreshBoardInfoLocked_synced synced)
      rintro ⟨ret, e₁⟩ w₁ here
      have kept : ∀ (ret : Int) w, Synced slotOf index (w index) e₁ →
          (publishedMachine slotOf).wp anyAccess
            (fun result w' => Synced slotOf index (w' index) result.2) (.done (ret, e₁)) w :=
        fun _ _ here => wp_done (synced_stable e₁) here fun _ here' => here'
      dsimp only
      split
      · exact kept ret w₁ here
      · split
        · rename_i pdev base _ _
          have master : (perform (.pciSetMaster pdev)).Calls Op.SparesHeader :=
            ⟨trivial, fun _ => trivial⟩
          apply wp_seq (spares_wp master here)
          intro _ w₂ here₂
          have sends := (xferToEp_calls t base e₁.bootLen req).mono
            fun _ => Op.Transfers.sparesHeader
          apply wp_seq (spares_wp sends here₂)
          intro sent w₃ here₃
          split
          · exact kept sent w₃ here₃
          · have booted : Synced slotOf index (w₃ index)
                (pcieBootTimeoutSchedule { e₁ with state := .booting }) :=
              here₃.congr rfl rfl rfl rfl
            exact wp_done (synced_stable _) booted fun _ here' => here'
        · exact fun _ _ => ⟨trivial, fun impossible => nomatch impossible⟩

/-! Whole runs -/

/-- The runs of the loaded driver beside the endpoints whose reads of board info all meet a
condition. Between two sections an endpoint takes a step, or a board starts anew in a slot that is
not in use. -/
inductive CacheRun (slotOf : Mapping → Option (Fin ambaPciDevMax)) (t : Timing)
    (cond : EpWorld → Op → Prop) : Platform → EpWorld → Prop
  | load {present : List PciDev} {procRoot : Bool} {s : Platform} (w : EpWorld)
      (returned : Returns anyReply (pcieEnumerateExistedDevs present (platformInit procRoot)) s) :
      CacheRun slotOf t cond s w
  | step {s s' : Platform} {w w' : EpWorld} {event : Event} (before : CacheRun slotOf t cond s w)
      (step : SectionStep ((epMachine slotOf).restrict cond) t (s, w) event (s', w')) :
      CacheRun slotOf t cond s' w'
  | endpoint {s : Platform} {w w' : EpWorld} (before : CacheRun slotOf t cond s w)
      (moved : (epMachine slotOf).interfere w w') : CacheRun slotOf t cond s w'
  | restarts {s : Platform} {w : EpWorld} {index : Fin ambaPciDevMax} (bar : Memory)
      (before : CacheRun slotOf t cond s w) (free : (s.devs index).inUse = false) :
      CacheRun slotOf t cond s (Function.update w index bar)

variable {t : Timing} {cond : EpWorld → Op → Prop} {s s' : Platform} {w w' : EpWorld}
  {event : Event}

theorem CacheRun.reachable (run : CacheRun slotOf t cond s w) : Reachable anyReply t s := by
  induction run with
  | @load present procRoot s w returned =>
      exact (Reachable.init procRoot).step (.enumerate returned)
  | step before step ih => exact ih.step step.locked
  | endpoint before moved ih => exact ih
  | restarts bar before free ih => exact ih

/-- The step lemma. -/
theorem SectionStep.synced (step : SectionStep (publishedMachine slotOf) t (s, w) event (s', w'))
    (synced : AllSynced slotOf s w) : AllSynced slotOf s' w' := by
  cases step with
  | @add _ _ _ _ pdev ran =>
      have calls := (pcieHandleAddLocked_calls pdev s).mono fun _ => Op.Hotplugs.sparesHeader
      have kept := wp_post (spares_all calls synced) ran
      exact fun index => pcieHandleAddLocked_keep (Synced slotOf index (w' index))
        (fun slot outcome => Synced.added slot outcome) ran.returns (kept index)
  | @del _ _ _ _ pdev ran =>
      have calls := (pcieHandleDelLocked_calls pdev s).mono fun _ => Op.Hotplugs.sparesHeader
      have kept := wp_post (spares_all calls synced) ran
      rcases pcieHandleDelLocked_returns ran.returns with
        ⟨-, rfl⟩ | ⟨index, e', found, outcome, rfl⟩
      · exact kept
      · exact kept.setDev (Synced.removed outcome (kept index))
  | query ran => exact wp_post (queryDevs_synced _ synced) ran
  | @devInfo _ _ _ _ index info ran =>
      have section' : (publishedMachine slotOf).wp anyAccess
          (fun result w' => AllSynced slotOf result.2 w') (pcieDevInfoReadLocked index s) w := by
        have query := (pcieQueryDevInfoLocked_calls (s.devs index) index.val).mono
          fun _ => Op.Prepares.sparesHeader
        apply wp_seq (allSynced_wp query synced
          (pcieQueryDevInfoLocked_synced index.val (synced index)))
        intro read w₁ here
        exact wp_done (allSynced_stable _) here fun _ done => done
      exact wp_post section' ran
  | @xferFirmware _ _ _ req index ret e' accepted addressed ran =>
      have transfers := (pcieXferFirmwareLocked_calls t req (s.devs index)).mono
        fun _ => Op.Transfers.sparesHeader
      exact wp_post (allSynced_wp transfers synced
        (pcieXferFirmwareLocked_synced t req (synced index))) ran
  | @reboot _ _ index =>
      refine synced.setDev ?_
      unfold pcieRebootLocked
      split
      · exact synced index
      · split
        · exact synced index
        · exact (synced index).congr rfl rfl rfl rfl
  | @timerExpires _ _ index armed =>
      exact synced.setDev ((synced index).congr rfl rfl rfl rfl)
  | @workStarts _ _ index queued returned =>
      exact synced.setDev ((synced index).congr rfl rfl rfl rfl)
  | @workRuns _ _ index started =>
      refine synced.setDev ?_
      unfold pcieBootTimeoutFn
      split
      · exact (synced index).congr rfl rfl rfl rfl
      · exact (synced index).congr rfl rfl rfl rfl

/-- The run lemma. -/
theorem CacheRun.synced (run : CacheRun slotOf t (ReadsPublished slotOf) s w) :
    AllSynced slotOf s w := by
  induction run with
  | @load present procRoot s w returned =>
      intro index
      have zeroed : Synced slotOf index (w index) ((platformInit procRoot).devs index) :=
        .fresh (fun _ none => nomatch none) rfl rfl
      rw [pcieEnumerateExistedDevs, enumerateSlots_eq] at returned
      exact handleAdds_keep (Synced slotOf index (w index))
        (fun slot outcome => Synced.added slot outcome) _ returned zeroed
  | step before step ih => exact step.synced ih
  | endpoint before moved ih => exact allSynced_stable _ _ _ ih moved
  | @restarts s w index bar before free ih =>
      have unused := (before.reachable.slotInvariant index).unused free
      intro other
      by_cases same : other = index
      · subst same
        exact .fresh (ih other).bus unused.2.1 unused.2.2.2.2
      · rw [Function.update_of_ne same]
        exact ih other

/-- In every run in which `pcie_ring_read_board_info` only ever starts to read where the magic word
is present, what a slot has cached is what its endpoint has published. -/
theorem board_info_published (slotOf : Mapping → Option (Fin ambaPciDevMax)) (t : Timing)
    (s : Platform) (w : EpWorld) (run : CacheRun slotOf t (ReadsPublished slotOf) s w)
    (index : Fin ambaPciDevMax) : CachesPublished (w index) (s.devs index) :=
  (run.synced index).cached

/-! Two runs of one card -/

/-- The mapping of slot `index` is number `index`. -/
def slotOfMapping (base : Mapping) : Option (Fin ambaPciDevMax) :=
  if inside : base < ambaPciDevMax then some ⟨base, inside⟩ else none

/-- Nothing fails, and the registers are read from the BAR. -/
def epReply (w : EpWorld) : (op : Op) → Option (op.Reply × EpWorld)
  | .readl _ base off => some ((slotOfMapping base).elim 0 fun slot => load32 (w slot) off, w)
  | .pciIomap pdev _ _ => some ((getPciSlotId pdev).map Fin.val, w)
  | .writel _ _ _ _ => none
  | .memcpyToio _ _ _ _ => none
  | op => (promptReply op).map fun reply => (reply, w)

def epDriver : Driver Op Op.Reply EpWorld Empty where
  answer := epReply
  interfere impossible := nomatch impossible

theorem epDriver_sound : epDriver.Sound (epMachine slotOfMapping) where
  answer w op reply w' answered := by
    cases op with
    | readl fn base off =>
        cases answered
        refine ⟨rfl, fun slot shows => ?_⟩
        rw [shows]
        rfl
    | pciIomap pdev bar length =>
        cases answered
        refine ⟨rfl, fun base slot mapped bus => ?_⟩
        rw [(getPciSlotId_eq_some_iff pdev slot).mpr bus] at mapped
        cases mapped
        simp [slotOfMapping, slot.isLt]
    | writel | memcpyToio => cases answered
    | _ =>
        simp only [epDriver, epReply, Option.map_eq_some_iff] at answered
        obtain ⟨_, -, same⟩ := answered
        cases same
        exact ⟨rfl, trivial⟩
  interfere impossible := nomatch impossible

instance (w : EpWorld) (op : Op) : Decidable (ReadsPublished slotOfMapping w op) := by
  unfold ReadsPublished
  split
  · infer_instance
  · infer_instance

theorem driveSections_cacheRun {cond : EpWorld → Op → Prop} [∀ w op, Decidable (cond w op)]
    (events : List Event) (run : CacheRun slotOfMapping t cond s w)
    (driven : events.foldlM (driveSection (epDriver.restrict cond) t) (s, w) = some (s', w')) :
    CacheRun slotOfMapping t cond s' w' := by
  induction events generalizing s w with
  | nil =>
      cases driven
      exact run
  | cons event rest ih =>
      obtain ⟨⟨s₁, w₁⟩, first, later⟩ := Option.bind_eq_some_iff.mp driven
      exact ih (run.step (driveSection_step (epDriver_sound.restrict cond) first)) later

/-- A boot-ROM card on bus 1 is added and queried. -/
def queriedAfter (cond : EpWorld → Op → Prop) [∀ w op, Decidable (cond w op)] (bar : Memory) :
    Platform × EpWorld :=
  ([.add (cardAt 1 1 ambaPciTargetDeviceId), .query].foldlM
    (driveSection (epDriver.restrict cond) ⟨1000, 1⟩) (platformInit true, fun _ => bar)).getD
    (platformInit true, fun _ => bar)

theorem queriedAfter_run (cond : EpWorld → Op → Prop) [∀ w op, Decidable (cond w op)]
    (bar : Memory) (ran : ([.add (cardAt 1 1 ambaPciTargetDeviceId), .query].foldlM
      (driveSection (epDriver.restrict cond) ⟨1000, 1⟩) (platformInit true, fun _ => bar)).isSome) :
    CacheRun slotOfMapping ⟨1000, 1⟩ cond (queriedAfter cond bar).1 (queriedAfter cond bar).2 := by
  obtain ⟨config, found⟩ := Option.isSome_iff_exists.mp ran
  have scanned : Returns anyReply (pcieEnumerateExistedDevs [] (platformInit true))
      (platformInit true) := eval_returns promptReply (fun _ _ _ => trivial) _ _ rfl
  simp only [queriedAfter, found, Option.getD_some]
  exact driveSections_cacheRun _ (.load _ scanned) found

/-- An endpoint sets 7 as its board id and publishes it. -/
def startUp (bar : Memory) : Memory := store32 (store32 bar rhBdOff 7) rhMagicOff ringMagic

theorem CacheRun.startsUp (run : CacheRun slotOf t cond s w) (index : Fin ambaPciDevMax)
    (early : ¬ BoardPublished (w index)) :
    CacheRun slotOf t cond s (Function.update w index (startUp (w index))) := by
  have fills : StartupStep (w index) (store32 (w index) rhBdOff 7) :=
    .fills (show 0 < 14 by decide) early
  have filled := run.endpoint ⟨index, _, fills, rfl⟩
  have published := filled.endpoint ⟨index, _, .publishes, rfl⟩
  rw [Function.update_self, Function.update_idem] at published
  exact published

theorem board_info_published_query :
    CachesPublished ((queriedAfter (ReadsPublished slotOfMapping) (startUp fun _ => 0)).2 0)
      ((queriedAfter (ReadsPublished slotOfMapping) (startUp fun _ => 0)).1.devs 0) :=
  board_info_published slotOfMapping ⟨1000, 1⟩ _ _
    (queriedAfter_run (ReadsPublished slotOfMapping) (startUp fun _ => 0) (by decide +kernel)) 0

/-- A query that comes before the endpoint has filled the area: the zeroes it reads are kept when
the board info is published. -/
theorem board_info_published_early : ¬ ∀ slotOf t s w, CacheRun slotOf t (fun _ _ => True) s w →
    ∀ index, (s.devs index).boardInfoIsUpdated = true → BoardPublished (w index) →
      (s.devs index).boardInfo = BoardInfo.ofWords (boardWords (w index)) := by
  intro claim
  have run : CacheRun slotOfMapping ⟨1000, 1⟩ (fun _ _ => True) _ _ :=
    queriedAfter_run (fun _ _ => True) (fun _ => 0) (by decide +kernel)
  have info := claim slotOfMapping ⟨1000, 1⟩ _ _ (run.startsUp 0 (by decide +kernel)) 0
    (by decide +kernel) (by decide +kernel)
  revert info
  decide +kernel

end AmbaPci

import AmbaPci.InteractionMachine
import AmbaPci.RingAccesses
import AmbaPci.SlotSteps

set_option autoImplicit false

/- What `pcie_ioctl_xfer_firmware` does before it sends the first image: none of the operations it
calls touches the descriptors, the data blocks or user memory. -/
namespace AmbaPci

open Interaction Interaction.Prog Interaction.Machine

/-- An operation that leaves the ring as it is and does not set up a ring context. -/
def Op.Quiet : Op → Prop
  | .readl fn _ _ => fn ≠ .ctxInit
  | .writel _ _ _ _ => False
  | .memcpyToio _ _ _ _ => False
  | .copyFromUser _ _ => False
  | _ => True

theorem readl_quiet {fn : RingFn} {base : Mapping} {off : Nat} (other : fn ≠ .ctxInit) :
    (Op.readl fn base off).Quiet := other

/-- The operations that come before the images: the mapping of the BAR, the board info and the wait
for the endpoint. -/
def Op.Prepares : Op → Prop
  | .readl fn _ _ => fn = .waitU32 ∨ fn = .readBoardInfo
  | .jiffies => True
  | .usleepRange => True
  | .msleep _ => True
  | .pciWriteConfigByte _ _ _ => True
  | .barStatus _ _ => True
  | .pciIomap _ _ _ => True
  | .pciSetMaster _ => True
  | .spin => True
  | _ => False

theorem waitRead_prepares (base : Mapping) (off : Nat) :
    (Op.readl .waitU32 base off).Prepares := Or.inl rfl

theorem boardRead_prepares (base : Mapping) (off : Nat) :
    (Op.readl .readBoardInfo base off).Prepares := Or.inr rfl

theorem Op.Prepares.quiet {op : Op} (prepares : op.Prepares) : op.Quiet := by
  cases op with
  | readl fn base off =>
      have early : fn = .waitU32 ∨ fn = .readBoardInfo := prepares
      rcases early with rfl | rfl
      · exact readl_quiet (by decide)
      · exact readl_quiet (by decide)
  | writel fn base off value => exact prepares
  | memcpyToio fn base off bytes => exact prepares
  | copyFromUser src length => exact prepares
  | _ => trivial

theorem pcieEnableMemIoResource_calls (pdev : PciDev) :
    (pcieEnableMemIoResource pdev).Calls Op.Prepares := by
  apply Calls.perform trivial; intro err
  split
  · trivial
  · apply Calls.perform trivial; intro _
    apply Calls.perform trivial; intro err
    split
    · trivial
    · apply Calls.perform trivial; intro _
      apply Calls.perform trivial; intro err
      split
      · trivial
      · exact Calls.perform trivial fun _ => trivial

theorem pcieMapFoundBar_calls (pdev : PciDev) (e : Entry) :
    (pcieMapFoundBar pdev e).Calls Op.Prepares := by
  apply Calls.perform trivial; intro res
  split
  · trivial
  · apply Calls.bind (pcieEnableMemIoResource_calls pdev); intro ret
    split
    · trivial
    · apply Calls.perform trivial; intro base
      cases base with
      | none => trivial
      | some base => trivial

theorem pcieMapBootBar_calls (pdev : PciDev) (e : Entry) :
    (pcieMapBootBar pdev e).Calls Op.Prepares := by
  unfold pcieMapBootBar
  split
  · split
    · trivial
    · exact pcieMapFoundBar_calls pdev _
  · exact pcieMapFoundBar_calls pdev e

theorem pcieBootBarMapRetry_calls (pdev : PciDev) (attempts : Nat) (ret : Int) (e : Entry) :
    (pcieBootBarMapRetry pdev attempts ret e).Calls Op.Prepares := by
  induction attempts generalizing ret e with
  | zero => trivial
  | succ attempts ih =>
      apply Calls.bind (pcieMapBootBar_calls pdev e)
      rintro ⟨ret, e⟩
      dsimp only
      split
      · trivial
      · split
        · trivial
        · exact Calls.perform trivial fun _ => ih ret e

theorem pcieBootBarEnsureMapped_calls (pdev : PciDev) (e : Entry) :
    (pcieBootBarEnsureMapped pdev e).Calls Op.Prepares := by
  unfold pcieBootBarEnsureMapped
  split
  · trivial
  · apply Calls.bind (pcieBootBarMapRetry_calls pdev _ 0 e)
    rintro ⟨ret, e⟩
    dsimp only
    split
    · trivial
    · trivial

theorem pcieRingReadWords_calls (base : Mapping) (index count : Nat) :
    (pcieRingReadWords base index count).Calls Op.Prepares := by
  induction count generalizing index with
  | zero => trivial
  | succ count ih =>
      apply Calls.perform (boardRead_prepares base _); intro word
      exact Calls.bind (ih (index + 1)) fun _ => trivial

theorem pcieRingWaitLoop_calls (base : Mapping) (off : Nat) (want : BitVec 32) (equal : Bool)
    (deadline : BitVec 64) (polls : Nat) :
    (pcieRingWaitLoop base off want equal deadline polls).Calls Op.Prepares := by
  induction polls with
  | zero => exact ⟨trivial, fun impossible => nomatch impossible⟩
  | succ polls ih =>
      apply Calls.perform trivial; intro now
      split
      · apply Calls.perform (waitRead_prepares base off); intro val
        by_cases awaited : if equal then val = want else val ≠ want
        · rw [if_pos awaited]
          trivial
        · rw [if_neg awaited]
          exact Calls.perform trivial fun _ => ih
      · trivial

theorem pcieRingWaitEpReady_calls (t : Timing) (base : Mapping) :
    (pcieRingWaitEpReady t base).Calls Op.Prepares := by
  apply Calls.bind
  · apply Calls.perform trivial; intro now
    exact pcieRingWaitLoop_calls base _ _ _ _ _
  · intro ret
    split
    · trivial
    · apply Calls.perform trivial; intro now
      exact pcieRingWaitLoop_calls base _ _ _ _ _

theorem refreshBootMapping_calls (pdev : PciDev) (e : Entry) :
    (refreshBootMapping pdev e).Calls Op.Prepares := by
  unfold refreshBootMapping
  split
  · exact pcieBootBarEnsureMapped_calls pdev e
  · trivial

theorem pcieDevRefreshBoardInfoLocked_calls (e : Entry) :
    (pcieDevRefreshBoardInfoLocked e).Calls Op.Prepares := by
  unfold pcieDevRefreshBoardInfoLocked
  split
  · trivial
  · split
    · trivial
    · rename_i pdev _
      apply Calls.bind (refreshBootMapping_calls pdev e)
      rintro ⟨ret, e⟩
      dsimp only
      split
      · trivial
      · split
        · apply Calls.bind
          · apply Calls.bind (pcieRingReadWords_calls _ 0 14); intro words
            trivial
          · intro bd
            trivial
        · trivial

theorem pcieQueryDevInfoLocked_calls (e : Entry) (slot : Nat) :
    (pcieQueryDevInfoLocked e slot).Calls Op.Prepares := by
  unfold pcieQueryDevInfoLocked
  dsimp only
  split
  · trivial
  · exact Calls.bind (pcieDevRefreshBoardInfoLocked_calls e) fun _ => trivial

theorem queryDevs_calls (slots : List (Fin ambaPciDevMax)) (s : Platform) :
    (queryDevs slots s).Calls Op.Prepares := by
  induction slots generalizing s with
  | nil => trivial
  | cons slot rest ih =>
      apply Calls.bind (pcieQueryDevInfoLocked_calls (s.devs slot) slot.val); intro first
      exact Calls.bind (ih (s.setDev slot first.2)) fun _ => trivial

theorem pcieDevInfoReadLocked_calls (index : Fin ambaPciDevMax) (s : Platform) :
    (pcieDevInfoReadLocked index s).Calls Op.Prepares :=
  Calls.bind (pcieQueryDevInfoLocked_calls _ _) fun _ => trivial

theorem oops_wp {α σ : Type} {M : Machine Op Op.Reply σ} {guard : σ → Op → Prop}
    {assertion : σ → Prop} {post : α → σ → Prop} (stable : M.Stable assertion)
    (ready : ∀ s, assertion s → guard s .oops) {s : σ} (holds : assertion s) :
    M.wp guard post (oops : Host α) s :=
  wp_call stable holds ready fun _ impossible => nomatch impossible

/-- The operations of the locked section of a transfer. -/
def Op.Transfers (op : Op) : Prop := op.Prepares ∨ op.Sends ∧ op.SparesHeader ∨ op = .oops

theorem xferImages_calls (t : Timing) (base : Mapping) (ringMapSize : BitVec 64) (req : FwXfer)
    (types : List (BitVec 32)) : (xferImages t base ringMapSize req types).Calls Op.Transfers := by
  induction types with
  | nil => trivial
  | cons type rest ih =>
      unfold xferImages
      split
      · exact ⟨Or.inr (Or.inr rfl), fun impossible => nomatch impossible⟩
      · have sends := pcieRingXferUser_sparesHeader t base ringMapSize req.fwUserPtr ‹FwImageDesc›
        apply Calls.bind (sends.mono fun _ sent => Or.inr (Or.inl sent)); intro ret
        split
        · trivial
        · exact ih

theorem xferToEp_calls (t : Timing) (base : Mapping) (ringMapSize : BitVec 64) (req : FwXfer) :
    (xferToEp t base ringMapSize req).Calls Op.Transfers := by
  apply Calls.bind ((pcieRingWaitEpReady_calls t base).mono fun _ => Or.inl); intro ret
  split
  · trivial
  · exact xferImages_calls t base ringMapSize req pcieFwXferOrder

theorem pcieXferFirmwareLocked_calls (t : Timing) (req : FwXfer) (e : Entry) :
    (pcieXferFirmwareLocked t req e).Calls Op.Transfers := by
  unfold pcieXferFirmwareLocked
  split
  · trivial
  · split
    · trivial
    · apply Calls.bind ((pcieDevRefreshBoardInfoLocked_calls e).mono fun _ => Or.inl)
      rintro ⟨ret, e₁⟩
      dsimp only
      split
      · trivial
      · split
        · have master : (Op.pciSetMaster ‹PciDev›).Transfers := Or.inl trivial
          apply Calls.perform master; intro _
          apply Calls.bind (xferToEp_calls t _ _ req); intro sent
          split
          · trivial
          · trivial
        · exact ⟨Or.inr (Or.inr rfl), fun impossible => nomatch impossible⟩

/-- The locked section, given what sending the images does: whatever comes before keeps `before`. -/
theorem pcieXferFirmwareLocked_wp {σ : Type} {M : Machine Op Op.Reply σ} {guard : σ → Op → Prop}
    {before : σ → Prop} {t : Timing} {req : FwXfer} (post : Int → σ → Prop)
    (stable : M.Stable before) (ready : ∀ s op, op.Prepares → before s → guard s op)
    (prepare : ∀ s op reply s', op.Prepares → before s → M.answer s op reply s' → before s')
    (refused : ∀ ret s, ret ≠ 0 → before s → post ret s)
    (send : ∀ base ringMapSize s, before s →
      M.wp guard post (xferImages t base ringMapSize req pcieFwXferOrder) s)
    {e : Entry} {s : σ} (holds : before s) :
    M.wp guard (fun result s' => post result.1 s') (pcieXferFirmwareLocked t req e) s := by
  have refuse : ∀ (ret : Int) (e : Entry) s, ret ≠ 0 → before s →
      M.wp guard (fun result s' => post result.1 s') (.done (ret, e)) s :=
    fun ret _ _ failed here => wp_done stable here fun s' here' => refused ret s' failed here'
  unfold pcieXferFirmwareLocked
  split
  · exact refuse _ e s (by decide) holds
  · split
    · exact refuse _ e s (by decide) holds
    · rename_i idle
      apply wp_seq (wp_returns
        (wp_calls stable ready prepare (pcieDevRefreshBoardInfoLocked_calls e) holds))
      intro refreshed s₁ result
      obtain ⟨ret, e'⟩ := refreshed
      obtain ⟨here₁, returned⟩ := result
      dsimp only
      split
      · rename_i failed
        exact refuse ret e' s₁ failed here₁
      · rename_i zero
        split
        · rename_i pdev base _ _
          apply wp_perform stable here₁ fun s' here => ready s' (.pciSetMaster pdev) trivial here
          intro s₂ reply s₃ here₂ master
          have here₃ := prepare s₂ (.pciSetMaster pdev) reply s₃ trivial here₂ master
          have sent : M.wp guard post (xferToEp t base e'.bootLen req) s₃ := by
            apply wp_seq (wp_calls stable ready prepare (pcieRingWaitEpReady_calls t base) here₃)
            intro ret s₄ here₄
            split
            · rename_i failed
              exact wp_done stable here₄ fun s' here' => refused ret s' failed here'
            · exact send base e'.bootLen s₄ here₄
          apply wp_seq (wp_settled sent)
          intro ret s₄ settled
          split
          · exact settled
          · rename_i zero
            rw [Decidable.not_not.mp zero] at settled
            exact settled
        · rename_i detached
          obtain ⟨pdev, base, somePdev, someBase⟩ := pcieDevRefreshBoardInfoLocked_live returned
            (Decidable.not_not.mp idle) (Decidable.not_not.mp zero)
          exact absurd someBase (detached pdev base somePdev)

end AmbaPci

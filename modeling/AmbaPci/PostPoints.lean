import AmbaPci.InteractionMachine
import AmbaPci.RingArithmetic

set_option autoImplicit false

/- The points between two posts of `pcie_ring_xfer_user`, with the context that it has there: what a
run passes on its way through the chunks of an image, on any machine. -/
namespace AmbaPci

open ByteMemory (Byte)
open Interaction Interaction.Machine

/-- Where a transfer stands between two posts: its chunk `chunk` is next, or is in the bounce buffer
already, or its command has been posted. -/
inductive XferPhase
  | next (chunk : Nat)
  | filled (chunk : Nat) (bytes : List Byte)
  | closed

variable {σ : Type}

/-- The points between two posts in the transfer of an image that starts at `s₀`, each with its
context: a run of what `pcie_ring_xfer_user` does next leads from one to the other. A run can end
with moves of its surroundings, so that these are points, too. -/
inductive BetweenPosts (M : Machine Op Op.Reply σ) (t : Timing) (base : Mapping)
    (ringMapSize userBase : BitVec 64) (img : FwImageDesc) (s₀ : σ) :
    XferPhase → PcieRingCtx → σ → Prop
  | opened {s₁ s : σ} {ring : PcieRingCtx}
      (allocated : M.Steps (perform (.kmalloc ringBlockSize), s₀) (.done true, s₁))
      (set : M.Steps (pcieRingCtxInit base ringMapSize, s₁) (.done (0, ring), s)) :
      BetweenPosts M t base ringMapSize userBase img s₀ (.next 0) ring s
  | fetched {chunk : Nat} {bytes : List Byte} {s s' : σ} {ring : PcieRingCtx}
      (before : BetweenPosts M t base ringMapSize userBase img s₀ (.next chunk) ring s)
      (inside : chunk < ringChunks (pcieRingXferTotal img.length))
      (fetched : M.Steps (pcieRingFillChunk
        (userBase + img.offset + ringPos (pcieRingXferTotal img.length) chunk) img.length
        (ringPos (pcieRingXferTotal img.length) chunk)
        (pcieRingChunkSize (pcieRingXferTotal img.length)
          (ringPos (pcieRingXferTotal img.length) chunk)), s) (.done (some bytes), s')) :
      BetweenPosts M t base ringMapSize userBase img s₀ (.filled chunk bytes) ring s'
  | posted {chunk : Nat} {bytes : List Byte} {s s' : σ} {ring ring' : PcieRingCtx}
      (before : BetweenPosts M t base ringMapSize userBase img s₀ (.filled chunk bytes) ring s)
      (posted : M.Steps (pcieRingPostData t ring bytes
        (pcieRingChunkSize (pcieRingXferTotal img.length)
          (ringPos (pcieRingXferTotal img.length) chunk))
        (pcieFwLoadAddr img.type + ringPos (pcieRingXferTotal img.length) chunk), s)
        (.done (0, ring'), s')) :
      BetweenPosts M t base ringMapSize userBase img s₀ (.next (chunk + 1)) ring' s'
  | closed {s s' : σ} {ring ring' : PcieRingCtx}
      (before : BetweenPosts M t base ringMapSize userBase img s₀
        (.next (ringChunks (pcieRingXferTotal img.length))) ring s)
      (posted : M.Steps (pcieRingPostCmd t ring (pcieRingTail img.type img.length).1
        (pcieRingTail img.type img.length).2 (pcieFwLoadAddr img.type), s)
        (.done (0, ring'), s')) :
      BetweenPosts M t base ringMapSize userBase img s₀ .closed ring' s'

/-- `pcie_ring_xfer_user` behind its loop. -/
def ringXferClose (t : Timing) (base : Mapping) (img : FwImageDesc) (sent : Int × PcieRingCtx) :
    Host Int :=
  if sent.1 ≠ 0 then pure sent.1
  else do
    let tail := pcieRingTail img.type img.length
    let (ret, _) ← pcieRingPostCmd t sent.2 tail.1 tail.2 (pcieFwLoadAddr img.type)
    if ret ≠ 0 then pure ret
    else pcieRingXferPoll t base 5000

/-- What is left to do at a point. -/
def XferPhase.rest (t : Timing) (base : Mapping) (userBase : BitVec 64) (img : FwImageDesc)
    (ring : PcieRingCtx) : XferPhase → Host Int
  | .next chunk =>
      pcieRingXferLoop t (userBase + img.offset) img.length (pcieFwLoadAddr img.type)
        (pcieRingXferTotal img.length) (pcieRingPasses (pcieRingXferTotal img.length) - chunk) ring
        (ringPos (pcieRingXferTotal img.length) chunk) >>= ringXferClose t base img
  | .filled chunk bytes =>
      (pcieRingPostData t ring bytes
        (pcieRingChunkSize (pcieRingXferTotal img.length)
          (ringPos (pcieRingXferTotal img.length) chunk))
        (pcieFwLoadAddr img.type + ringPos (pcieRingXferTotal img.length) chunk) >>= fun posted =>
          if posted.1 ≠ 0 then pure posted
          else pcieRingXferLoop t (userBase + img.offset) img.length (pcieFwLoadAddr img.type)
            (pcieRingXferTotal img.length)
            (pcieRingPasses (pcieRingXferTotal img.length) - (chunk + 1)) posted.2
            (ringPos (pcieRingXferTotal img.length) (chunk + 1))) >>= ringXferClose t base img
  | .closed => pcieRingXferPoll t base 5000

variable {M : Machine Op Op.Reply σ} {t : Timing} {base : Mapping}
  {ringMapSize userBase : BitVec 64} {img : FwImageDesc} {s₀ s s' : σ} {phase : XferPhase}
  {ring ring' : PcieRingCtx}

theorem BetweenPosts.drift (point : BetweenPosts M t base ringMapSize userBase img s₀ phase ring s)
    (moved : M.Drift s s') : BetweenPosts M t base ringMapSize userBase img s₀ phase ring s' := by
  cases point with
  | opened allocated set => exact .opened allocated (set.trans (Steps.drift moved))
  | fetched before inside fetched =>
      exact .fetched before inside (fetched.trans (Steps.drift moved))
  | posted before posted => exact .posted before (posted.trans (Steps.drift moved))
  | closed before posted => exact .closed before (posted.trans (Steps.drift moved))

/-- Every point lies on a run of `pcie_ring_xfer_user`. -/
theorem BetweenPosts.reached
    (point : BetweenPosts M t base ringMapSize userBase img s₀ phase ring s) :
    M.Steps (pcieRingXferUser t base ringMapSize userBase img, s₀)
      (phase.rest t base userBase img ring, s) := by
  induction point with
  | opened allocated set =>
      dsimp only [XferPhase.rest]
      rw [ringPos_zero, Nat.sub_zero]
      exact Steps.seq allocated (Steps.seq set .refl)
  | @fetched chunk bytes s s' ring before inside fetched ih =>
      have enough := ringChunks_lt_passes (pcieRingXferTotal img.length)
      have more : pcieRingPasses (pcieRingXferTotal img.length) - chunk =
          pcieRingPasses (pcieRingXferTotal img.length) - (chunk + 1) + 1 := by omega
      dsimp only [XferPhase.rest] at ih ⊢
      rw [more, pcieRingXferLoop_succ _ _ _ _ _ _ inside] at ih
      have pass : M.Steps (ringChunkPass t (userBase + img.offset) img.length
          (pcieFwLoadAddr img.type) (pcieRingXferTotal img.length)
          (ringPos (pcieRingXferTotal img.length) chunk) ring, s) _ := Steps.seq fetched .refl
      exact ih.trans ((pass.bind _).bind _)
  | posted before posted ih => exact ih.trans ((posted.bind _).bind _)
  | @closed s s' ring ring' before posted ih =>
      have enough := ringChunks_lt_passes (pcieRingXferTotal img.length)
      have more : pcieRingPasses (pcieRingXferTotal img.length) -
          ringChunks (pcieRingXferTotal img.length) =
          pcieRingPasses (pcieRingXferTotal img.length) -
            (ringChunks (pcieRingXferTotal img.length) + 1) + 1 := by omega
      dsimp only [XferPhase.rest] at ih ⊢
      rw [more, pcieRingXferLoop_end _ _ _ _ _ _ (Nat.le_refl _)] at ih
      have close : M.Steps (ringXferClose t base img (0, ring), s)
          (pcieRingXferPoll t base 5000, s') := Steps.seq posted .refl
      exact ih.trans close

/-- The loop goes through the points of its chunks. -/
theorem BetweenPosts.loop (passes : Nat) {chunk : Nat}
    (point : BetweenPosts M t base ringMapSize userBase img s₀ (.next chunk) ring s)
    (inside : chunk ≤ ringChunks (pcieRingXferTotal img.length))
    (enough : ringChunks (pcieRingXferTotal img.length) < passes + chunk)
    (run : M.Steps (pcieRingXferLoop t (userBase + img.offset) img.length (pcieFwLoadAddr img.type)
      (pcieRingXferTotal img.length) passes ring (ringPos (pcieRingXferTotal img.length) chunk), s)
      (.done (0, ring'), s')) :
    BetweenPosts M t base ringMapSize userBase img s₀
      (.next (ringChunks (pcieRingXferTotal img.length))) ring' s' := by
  induction passes generalizing chunk ring s with
  | zero => omega
  | succ passes ih =>
      by_cases more : chunk < ringChunks (pcieRingXferTotal img.length)
      · rw [pcieRingXferLoop_succ _ _ _ _ _ _ more] at run
        obtain ⟨posted, s₂, pass, later⟩ := Steps.seq_inv run
        by_cases zero : posted.1 = 0
        · rw [if_neg (by simp [zero])] at later
          obtain ⟨filled, s₁, fetched, post⟩ := Steps.seq_inv pass
          cases filled with
          | none =>
              have failed := (Steps.done_inv post).1
              rw [failed] at zero
              exact absurd zero (show (-efault : Int) ≠ 0 by decide)
          | some bytes =>
              have same : posted = (0, posted.2) := Prod.ext zero rfl
              rw [same] at post
              exact ih (.posted (.fetched point more fetched) post) more (by omega) later
        · rw [if_pos zero] at later
          have same := (Steps.done_inv later).1
          rw [← same] at zero
          exact absurd rfl zero
      · have last : chunk = ringChunks (pcieRingXferTotal img.length) := by omega
        subst last
        rw [pcieRingXferLoop_end _ _ _ _ _ _ (Nat.le_refl _)] at run
        obtain ⟨same, moved⟩ := Steps.done_inv run
        have context : ring' = ring := congrArg Prod.snd same
        rw [context]
        exact point.drift moved

/-- A transfer that returns 0 has gone through all of its points, up to the one in front of its
`pcie_ring_xfer_poll`. -/
theorem BetweenPosts.of_return
    (run : M.Steps (pcieRingXferUser t base ringMapSize userBase img, s₀) (.done 0, s')) :
    ∃ ring s, BetweenPosts M t base ringMapSize userBase img s₀ .closed ring s ∧
      M.Steps (pcieRingXferPoll t base 5000, s) (.done 0, s') := by
  obtain ⟨allocated, s₁, alloc, run⟩ := Steps.seq_inv run
  cases allocated with
  | false => exact absurd (Steps.done_inv run).1 (show (0 : Int) ≠ -enomem by decide)
  | true =>
      obtain ⟨⟨ret, ring⟩, s₂, set, run⟩ := Steps.seq_inv run
      dsimp only at run
      by_cases zero : ret = 0
      · subst zero
        have point : BetweenPosts M t base ringMapSize userBase img s₀ (.next 0) ring s₂ :=
          .opened alloc set
        rw [if_neg (by decide)] at run
        obtain ⟨⟨ret, ring⟩, s₃, loop, run⟩ := Steps.seq_inv run
        dsimp only at run
        by_cases zero : ret = 0
        · subst zero
          rw [← ringPos_zero (pcieRingXferTotal img.length)] at loop
          have sent := point.loop _ (Nat.zero_le _) (ringChunks_lt_passes _) loop
          rw [if_neg (by decide)] at run
          obtain ⟨⟨ret, ring⟩, s₄, command, run⟩ := Steps.seq_inv run
          dsimp only at run
          by_cases zero : ret = 0
          · subst zero
            rw [if_neg (by decide)] at run
            exact ⟨ring, s₄, .closed sent command, run⟩
          · rw [if_pos zero] at run
            exact absurd (Steps.done_inv run).1.symm zero
        · rw [if_pos zero] at run
          exact absurd (Steps.done_inv run).1.symm zero
      · rw [if_pos zero] at run
        exact absurd (Steps.done_inv run).1.symm zero

end AmbaPci

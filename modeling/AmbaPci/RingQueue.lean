import AmbaPci.RingWorld

set_option autoImplicit false

/- The invariant that ties the counters, the descriptor slots and the data blocks together while one
image is sent, and what each access of the host and each step of the endpoint does to it. -/
namespace AmbaPci

open ByteMemory
open Interaction Interaction.Machine

/-- `consumed` of the posts have been consumed; the rest are in flight, at most `num` of them. -/
structure RingQueue (num maxBlk origin : BitVec 32) (log posts : List EpAction) (consumed : Nat)
    (s : RingWorld) : Prop where
  some : consumed ≤ posts.length
  few : posts.length ≤ consumed + num.toNat
  usedReg : s.used = ringIndex origin posts.length
  availReg : s.avail = ringIndex origin consumed + num
  numReg : s.num = num
  maxBlkReg : s.maxBlk = maxBlk
  flight : ∀ index, consumed ≤ index → (inside : index < posts.length) →
    InFlight s.bar (pcieRingDesc (ringIndex origin index) num) (BitVec.ofNat 32 index % maxBlk)
      posts[index]
  phase : match s.phase with
    | .waiting => s.log = log ++ posts.take consumed
    | .fetched desc => consumed < posts.length ∧
        desc = loadDesc s.bar (pcieRingDesc (ringIndex origin consumed) num) ∧
        s.log = log ++ posts.take consumed
    | .executed => consumed < posts.length ∧ s.log = log ++ posts.take (consumed + 1)

variable {num maxBlk origin : BitVec 32} {log posts : List EpAction} {consumed : Nat}

section Layout

variable {ringMapSize : BitVec 64}

/-- The slots in flight lie apart. -/
theorem RingHeader.slots_apart (header : RingHeader num maxBlk ringMapSize) (origin : BitVec 32)
    {first second : Nat} (before : first < second) (near : second < first + num.toNat) :
    Apart (pcieRingDesc (ringIndex origin first) num) 20
      (pcieRingDesc (ringIndex origin second) num) 20 := by
  have different : (origin.toNat + first) % num.toNat ≠ (origin.toNat + second) % num.toNat :=
    mod_ne_of_near (by omega) (by omega)
  rw [pcieRingDesc_eq header.divides, pcieRingDesc_eq header.divides]
  unfold Apart
  omega

/-- Slots lie between the header and the first block. -/
theorem RingHeader.slot_inside (header : RingHeader num maxBlk ringMapSize) (origin : BitVec 32)
    (index : Nat) : 80 ≤ pcieRingDesc (ringIndex origin index) num ∧
      pcieRingDesc (ringIndex origin index) num + 20 ≤ 512 := by
  have below := Nat.mod_lt (origin.toNat + index) header.positive
  have room := header.slots
  rw [pcieRingDesc_eq header.divides]
  omega

theorem RingHeader.dataBlk_eq (header : RingHeader num maxBlk ringMapSize) {index : Nat}
    (small : index < 2 ^ 32) :
    pcieRingDataBlk (BitVec.ofNat 32 index % maxBlk) = (index % maxBlk.toNat + 1) * 512 := by
  have positive : 0 < maxBlk.toNat := Nat.lt_of_lt_of_le header.positive header.atMost
  have below := Nat.mod_lt index positive
  have bound := maxBlk.isLt
  have one : (1 : BitVec 32).toNat = 1 := rfl
  rw [pcieRingDataBlk, BitVec.toNat_add, BitVec.toNat_umod, BitVec.toNat_ofNat, one, ringBlockSize,
    Nat.mod_eq_of_lt small, Nat.mod_eq_of_lt (by omega)]

/-- The blocks in flight lie apart, too. -/
theorem RingHeader.blocks_apart (header : RingHeader num maxBlk ringMapSize) {first second : Nat}
    (before : first < second) (near : second < first + num.toNat) (small : second < 2 ^ 32) :
    Apart (pcieRingDataBlk (BitVec.ofNat 32 first % maxBlk)) ringBlockSize
      (pcieRingDataBlk (BitVec.ofNat 32 second % maxBlk)) ringBlockSize := by
  have narrow := header.atMost
  have different : first % maxBlk.toNat ≠ second % maxBlk.toNat :=
    mod_ne_of_near before (by omega)
  rw [header.dataBlk_eq (by omega), header.dataBlk_eq small]
  unfold Apart ringBlockSize
  omega

/-- A change of the BAR that spares the header, the slots and the blocks in flight. -/
theorem RingQueue.frame {s : RingWorld} (queue : RingQueue num maxBlk origin log posts consumed s)
    {bar : Memory} (head : ∀ cell < 80, bar cell = s.bar cell)
    (slots : ∀ index, consumed ≤ index → index < posts.length →
      ∀ cell, pcieRingDesc (ringIndex origin index) num ≤ cell →
        cell < pcieRingDesc (ringIndex origin index) num + 20 → bar cell = s.bar cell)
    (blocks : ∀ index, consumed ≤ index → index < posts.length →
      ∀ cell, pcieRingDataBlk (BitVec.ofNat 32 index % maxBlk) ≤ cell →
        cell < pcieRingDataBlk (BitVec.ofNat 32 index % maxBlk) + ringBlockSize →
          bar cell = s.bar cell) :
    RingQueue num maxBlk origin log posts consumed { s with bar } := by
  have register : ∀ off ≤ 20, load32 bar off = load32 s.bar off := by
    intro off low
    apply load32_congr
    intro byte inside
    exact head _ (by omega)
  obtain ⟨some, few, usedReg, availReg, numReg, maxBlkReg, flight, phase⟩ := queue
  refine ⟨some, few, ?_, ?_, ?_, ?_, ?_, ?_⟩
  · exact (register 12 (by omega)).trans usedReg
  · exact (register 8 (by omega)).trans availReg
  · exact (register 16 (by omega)).trans numReg
  · exact (register 20 (by omega)).trans maxBlkReg
  · intro index pending inside
    exact (flight index pending inside).frame (slots index pending inside)
      (blocks index pending inside)
  · show match s.phase with
      | .waiting => s.log = log ++ posts.take consumed
      | .fetched desc => consumed < posts.length ∧
          desc = loadDesc bar (pcieRingDesc (ringIndex origin consumed) num) ∧
          s.log = log ++ posts.take consumed
      | .executed => consumed < posts.length ∧ s.log = log ++ posts.take (consumed + 1)
    cases at' : s.phase with
    | waiting =>
        rw [at'] at phase
        exact phase
    | fetched desc =>
        rw [at'] at phase
        obtain ⟨more, held, logged⟩ := phase
        have same := loadDesc_congr (slots consumed (Nat.le_refl _) more)
        exact ⟨more, held.trans same.symm, logged⟩
    | executed =>
        rw [at'] at phase
        exact phase

/-- One step of the endpoint: it fetches, executes or counts the next post. -/
theorem RingQueue.epStep (header : RingHeader num maxBlk ringMapSize) {s s' : RingWorld}
    (queue : RingQueue num maxBlk origin log posts consumed s) (step : EpStep s s') :
    ∃ later, consumed ≤ later ∧ RingQueue num maxBlk origin log posts later s' := by
  have phase := queue.phase
  have position : s.avail - s.num = ringIndex origin consumed := by
    rw [queue.availReg, queue.numReg, BitVec.add_sub_cancel]
  cases step with
  | fetch waiting published =>
      rw [waiting] at phase
      have more : consumed < posts.length := by
        rw [position, queue.usedReg] at published
        have some := queue.some
        have different : consumed ≠ posts.length := by
          intro same
          rw [same] at published
          exact published rfl
        omega
      refine ⟨consumed, Nat.le_refl _, { queue with phase := ⟨more, ?_, phase⟩ }⟩
      rw [position, queue.numReg]
  | execute desc fetched =>
      rw [fetched] at phase
      obtain ⟨more, held, logged⟩ := phase
      refine ⟨consumed, Nat.le_refl _, { queue with phase := ⟨more, ?_⟩ }⟩
      show s.log ++ [execDesc s.bar desc] = _
      rw [held, (queue.flight consumed (Nat.le_refl _) more).exec, logged, List.append_assoc,
        List.take_append_getElem more]
  | advance executed =>
      rw [executed] at phase
      obtain ⟨more, logged⟩ := phase
      have positive : 0 < maxBlk.toNat := Nat.lt_of_lt_of_le header.positive header.atMost
      have spared : ∀ cell, 80 ≤ cell →
          store32 s.bar rhAvailOff (s.avail + 1) cell = s.bar cell := by
        intro cell high
        apply store32_outside
        unfold rhAvailOff
        omega
      refine ⟨consumed + 1, by omega, ?_⟩
      refine ⟨more, ?_, ?_, ?_, ?_, ?_, ?_, logged⟩
      · have few := queue.few
        omega
      · exact (load32_store32_apart _ _ _ _ (by decide)).trans queue.usedReg
      · show load32 (store32 s.bar rhAvailOff (s.avail + 1)) rhAvailOff = _
        rw [load32_store32_same, queue.availReg, ← ringIndex_succ, BitVec.add_assoc,
          BitVec.add_comm num 1, ← BitVec.add_assoc]
      · exact (load32_store32_apart _ _ _ _ (by decide)).trans queue.numReg
      · exact (load32_store32_apart _ _ _ _ (by decide)).trans queue.maxBlkReg
      · intro index pending inside
        have slot := (header.slot_inside origin index).1
        have block := dataBlk_ge maxBlk (BitVec.ofNat 32 index) positive
        apply (queue.flight index (by omega) inside).frame
        · intro cell low _
          exact spared cell (by omega)
        · intro cell low _
          exact spared cell (by omega)

/-- The slot of the next post can be written: fewer than `num` posts are in flight. -/
def RingRoom (num maxBlk origin : BitVec 32) (log posts : List EpAction) (s : RingWorld) : Prop :=
  ∃ consumed, RingQueue num maxBlk origin log posts consumed s ∧
    posts.length < consumed + num.toNat

theorem RingRoom.epStep (header : RingHeader num maxBlk ringMapSize) {s s' : RingWorld}
    (room : RingRoom num maxBlk origin log posts s) (step : EpStep s s') :
    RingRoom num maxBlk origin log posts s' := by
  obtain ⟨consumed, queue, few⟩ := room
  obtain ⟨later, ahead, queue'⟩ := queue.epStep header step
  exact ⟨later, queue', by omega⟩

/-- Writing into the next slot or the next block leaves the posts in flight alone. -/
theorem RingRoom.write (header : RingHeader num maxBlk ringMapSize) {s : RingWorld}
    (room : RingRoom num maxBlk origin log posts s) (small : posts.length < 2 ^ 32) {bar : Memory}
    (spared : ∀ cell,
      (cell < pcieRingDesc (ringIndex origin posts.length) num ∨
        pcieRingDesc (ringIndex origin posts.length) num + 20 ≤ cell) →
      (cell < pcieRingDataBlk (BitVec.ofNat 32 posts.length % maxBlk) ∨
        pcieRingDataBlk (BitVec.ofNat 32 posts.length % maxBlk) + ringBlockSize ≤ cell) →
      bar cell = s.bar cell) :
    RingRoom num maxBlk origin log posts { s with bar } := by
  obtain ⟨consumed, queue, few⟩ := room
  have positive : 0 < maxBlk.toNat := Nat.lt_of_lt_of_le header.positive header.atMost
  have slot := header.slot_inside origin posts.length
  have block := dataBlk_ge maxBlk (BitVec.ofNat 32 posts.length) positive
  refine ⟨consumed, queue.frame ?_ ?_ ?_, few⟩
  · intro cell low
    exact spared cell (by omega) (by omega)
  · intro index pending inside cell low high
    have apart := header.slots_apart origin inside (by omega)
    have other := header.slot_inside origin index
    unfold Apart at apart
    exact spared cell (by omega) (by omega)
  · intro index pending inside cell low high
    have apart := header.blocks_apart inside (by omega) small
    have other := dataBlk_ge maxBlk (BitVec.ofNat 32 index) positive
    unfold Apart at apart
    exact spared cell (by omega) (by omega)

/-- The write of `used` stays within the header. -/
theorem store32_used_spares (bar : Memory) (value : BitVec 32) {cell : Nat} (high : 80 ≤ cell) :
    store32 bar rhUsedOff value cell = bar cell := by
  apply store32_outside
  unfold rhUsedOff
  omega

theorem InFlight.published (header : RingHeader num maxBlk ringMapSize) {bar : Memory}
    {index : Nat} {blkid : BitVec 32} {action : EpAction}
    (flight : InFlight bar (pcieRingDesc (ringIndex origin index) num) (blkid % maxBlk) action)
    (value : BitVec 32) :
    InFlight (store32 bar rhUsedOff value) (pcieRingDesc (ringIndex origin index) num)
      (blkid % maxBlk) action := by
  have positive : 0 < maxBlk.toNat := Nat.lt_of_lt_of_le header.positive header.atMost
  have slot := (header.slot_inside origin index).1
  have block := dataBlk_ge maxBlk blkid positive
  apply flight.frame
  · intro cell low _
    exact store32_used_spares bar value (by omega)
  · intro cell low _
    exact store32_used_spares bar value (by omega)

/-- The write to `used` publishes what has been written into the next slot and block. -/
theorem RingQueue.publish (header : RingHeader num maxBlk ringMapSize) {s : RingWorld}
    (queue : RingQueue num maxBlk origin log posts consumed s)
    (few : posts.length < consumed + num.toNat) {action : EpAction}
    (written : InFlight s.bar (pcieRingDesc (ringIndex origin posts.length) num)
      (BitVec.ofNat 32 posts.length % maxBlk) action) :
    RingQueue num maxBlk origin log (posts ++ [action]) consumed
      { s with bar := store32 s.bar rhUsedOff (ringIndex origin posts.length + 1) } := by
  have some := queue.some
  refine ⟨?_, ?_, ?_, ?_, ?_, ?_, ?_, ?_⟩
  · rw [List.length_append]
    omega
  · rw [List.length_append, List.length_singleton]
    omega
  · show load32 (store32 s.bar rhUsedOff (ringIndex origin posts.length + 1)) rhUsedOff = _
    rw [load32_store32_same, ringIndex_succ, List.length_append, List.length_singleton]
  · exact (load32_store32_apart _ _ _ _ (by decide)).trans queue.availReg
  · exact (load32_store32_apart _ _ _ _ (by decide)).trans queue.numReg
  · exact (load32_store32_apart _ _ _ _ (by decide)).trans queue.maxBlkReg
  · intro index pending inside
    by_cases old : index < posts.length
    · rw [List.getElem_append_left old]
      exact (queue.flight index pending old).published header _
    · rw [List.length_append, List.length_singleton] at inside
      have last : index = posts.length := by omega
      subst last
      rw [List.getElem_concat_length rfl]
      exact written.published header _
  · have phase := queue.phase
    show match s.phase with
      | .waiting => s.log = log ++ (posts ++ [action]).take consumed
      | .fetched desc => consumed < (posts ++ [action]).length ∧
          desc = loadDesc (store32 s.bar rhUsedOff (ringIndex origin posts.length + 1))
            (pcieRingDesc (ringIndex origin consumed) num) ∧
          s.log = log ++ (posts ++ [action]).take consumed
      | .executed => consumed < (posts ++ [action]).length ∧
          s.log = log ++ (posts ++ [action]).take (consumed + 1)
    rw [List.take_append_of_le_length some, List.length_append, List.length_singleton]
    cases at' : s.phase with
    | waiting =>
        rw [at'] at phase
        exact phase
    | fetched desc =>
        rw [at'] at phase
        obtain ⟨more, held, logged⟩ := phase
        refine ⟨by omega, held.trans ?_, logged⟩
        have slot := (header.slot_inside origin consumed).1
        exact (loadDesc_congr fun cell low _ =>
          store32_used_spares s.bar _ (by omega)).symm
    | executed =>
        rw [at'] at phase
        obtain ⟨more, logged⟩ := phase
        refine ⟨by omega, ?_⟩
        rw [List.take_append_of_le_length more]
        exact logged

end Layout

end AmbaPci

import Mathlib.Logic.Function.Basic
import AmbaPci.H2dBounds

set_option autoImplicit false

/- What the two H2D ioctls write, and that it is the same. -/
namespace AmbaPci

open ByteMemory
open Interaction Interaction.Machine

/-! Delivering chunks -/

/-- One call of `h2d_xfer`. -/
structure BusWrite where
  bus : BitVec 32
  addr : BitVec 64
  bytes : List Byte
  deriving DecidableEq, Repr

/-- The `h2d_xfer` calls of one ioctl, and those among them that succeeded. -/
structure H2dRecord where
  issued : List BusWrite := []
  written : List BusWrite := []
  deriving DecidableEq, Repr

/-- The writes that put chunks one behind the other, from `addr` on. -/
def tileWrites (bus : BitVec 32) (addr : BitVec 64) : List (List Byte) → List BusWrite
  | [] => []
  | chunk :: rest =>
      ⟨bus, addr, chunk⟩ :: tileWrites bus (addr + BitVec.ofNat 64 chunk.length) rest

/-- Send chunks one by one until something fails. `before` is the error of the step that fetches a
chunk, `xfer` what its transfer returns, both by the number of the transfer; `last` is the error of
the step that finds no chunk left. -/
def deliver (before : Nat → Option Int) (xfer : Nat → Int) (last : Nat → Option Int)
    (bus : BitVec 32) (addr : BitVec 64) : List (List Byte) → H2dRecord → Int × H2dRecord
  | [], r => ((last r.issued.length).getD 0, r)
  | chunk :: rest, r =>
      match before r.issued.length with
      | some err => (err, r)
      | none =>
          let issued := r.issued ++ [⟨bus, addr, chunk⟩]
          if xfer r.issued.length ≠ 0 then (xfer r.issued.length, { r with issued })
          else deliver before xfer last bus (addr + BitVec.ofNat 64 chunk.length) rest
            ⟨issued, r.written ++ [⟨bus, addr, chunk⟩]⟩

section Deliver

variable {before : Nat → Option Int} {xfer : Nat → Int} (last : Nat → Option Int)
  (bus : BitVec 32)

theorem tileWrites_length (addr : BitVec 64) (chunks : List (List Byte)) :
    (tileWrites bus addr chunks).length = chunks.length := by
  induction chunks generalizing addr with
  | nil => rfl
  | cons chunk rest ih => simp only [tileWrites, List.length_cons, ih]

/-- The transfers from `start` on go well up to transfer `start + count`. -/
def SmoothUntil (before : Nat → Option Int) (xfer : Nat → Int) (start count : Nat) : Prop :=
  ∀ k < count, before (start + k) = none ∧ xfer (start + k) = 0

theorem SmoothUntil.tail {start count : Nat} (smooth : SmoothUntil before xfer start (count + 1)) :
    SmoothUntil before xfer (start + 1) count := by
  intro k inside
  have here := smooth (k + 1) (by omega)
  rwa [← Nat.add_assoc, Nat.add_right_comm] at here

/-- The first chunks go well: the others are delivered after them. -/
theorem deliver_append (addr : BitVec 64) (first rest : List (List Byte)) (r : H2dRecord)
    (smooth : SmoothUntil before xfer r.issued.length first.length) :
    deliver before xfer last bus addr (first ++ rest) r =
      deliver before xfer last bus (addr + BitVec.ofNat 64 first.flatten.length) rest
        ⟨r.issued ++ tileWrites bus addr first, r.written ++ tileWrites bus addr first⟩ := by
  induction first generalizing addr r with
  | nil => simp [tileWrites]
  | cons chunk first ih =>
      obtain ⟨fetched, sent⟩ := smooth 0 (by simp)
      rw [Nat.add_zero] at fetched sent
      have next := ih (addr + BitVec.ofNat 64 chunk.length)
        ⟨r.issued ++ [⟨bus, addr, chunk⟩], r.written ++ [⟨bus, addr, chunk⟩]⟩
        (by simpa using smooth.tail)
      simp only [List.cons_append, deliver, fetched, sent, ne_eq, not_true_eq_false, ↓reduceIte,
        next, tileWrites, List.append_assoc, List.nil_append, List.flatten_cons,
        List.length_append, BitVec.ofNat_add, BitVec.add_assoc]

theorem tileWrites_take (addr : BitVec 64) (chunks : List (List Byte)) (count : Nat) :
    tileWrites bus addr (chunks.take count) = (tileWrites bus addr chunks).take count := by
  induction chunks generalizing addr count with
  | nil => simp [tileWrites]
  | cons chunk rest ih =>
      cases count with
      | zero => rfl
      | succ count => simp only [List.take_succ_cons, tileWrites, ih]

theorem tileWrites_append (addr : BitVec 64) (first rest : List (List Byte)) :
    tileWrites bus addr (first ++ rest) = tileWrites bus addr first ++
      tileWrites bus (addr + BitVec.ofNat 64 first.flatten.length) rest := by
  induction first generalizing addr with
  | nil => simp [tileWrites]
  | cons chunk first ih =>
      simp only [List.cons_append, tileWrites, ih, List.flatten_cons, List.length_append,
        BitVec.ofNat_add, BitVec.add_assoc]

/-- Nothing fails. -/
theorem deliver_smooth (addr : BitVec 64) (chunks : List (List Byte))
    (fetched : ∀ k, before k = none) (sent : ∀ k, xfer k = 0) (ended : ∀ k, last k = none) :
    deliver before xfer last bus addr chunks {} =
      (0, ⟨tileWrites bus addr chunks, tileWrites bus addr chunks⟩) := by
  have all := deliver_append last bus addr chunks [] {}
    fun k _ => ⟨fetched (0 + k), sent (0 + k)⟩
  rw [List.append_nil] at all
  simp only [all, deliver, ended, Option.getD_none, List.nil_append]

/-- The transfers before number `count` go well. -/
theorem deliver_upto (addr : BitVec 64) (chunks : List (List Byte)) {count : Nat}
    (within : count < chunks.length) (smooth : SmoothUntil before xfer 0 count) :
    ∃ next chunk rest, (tileWrites bus addr chunks)[count]? = some ⟨bus, next, chunk⟩ ∧
      deliver before xfer last bus addr chunks {} =
        deliver before xfer last bus next (chunk :: rest)
          ⟨(tileWrites bus addr chunks).take count, (tileWrites bus addr chunks).take count⟩ := by
  have first : (chunks.take count).length = count := List.length_take_of_le (by omega)
  have split : chunks = chunks.take count ++ chunks[count] :: chunks.drop (count + 1) := by
    rw [← List.drop_eq_getElem_cons within, List.take_append_drop]
  have here : (tileWrites bus addr (chunks.take count)).length = count := by
    rw [tileWrites_length, first]
  refine ⟨addr + BitVec.ofNat 64 (chunks.take count).flatten.length, chunks[count],
    chunks.drop (count + 1), ?_, ?_⟩
  · have writes := tileWrites_append bus addr (chunks.take count)
      (chunks[count] :: chunks.drop (count + 1))
    rw [← split] at writes
    rw [writes, List.getElem?_append_right (by omega), here, Nat.sub_self]
    rfl
  · have all := deliver_append last bus addr (chunks.take count)
      (chunks[count] :: chunks.drop (count + 1)) {} (by simpa [first] using smooth)
    rw [← split, tileWrites_take] at all
    exact all

end Deliver

/-! The outside of a call -/

/-- What goes wrong outside, by the number of the transfer it comes before or hits: the error of
`kernel_read`, a fault of `copy_from_user`, the error of `h2d_xfer`. -/
structure H2dFaults where
  read : Nat → Option Int
  copy : Nat → Bool
  xfer : Nat → Int

/-- What does not change during a call: the slots' entries, the file, and user memory. -/
structure H2dHost where
  devs : Fin ambaPciDevMax → Entry
  content : List Byte
  file : FileReads
  whole : file.length = content.length
  user : BitVec 64 → Byte

/-- Symbol, file and buffer are there. -/
def H2dHost.driver (host : H2dHost) (faults : H2dFaults) :
    Machine.Driver H2dOp H2dOp.Reply H2dRecord Empty where
  answer r op :=
    match op with
    | .lockedEntry index => some (host.devs index, r)
    | .symbolGet => some (true, r)
    | .filpOpen _ => some ((0 : Int), r)
    | .vmalloc _ => some (true, r)
    | .copyFromUser src _ =>
        some (if faults.copy r.issued.length then none
          else some (Vector.ofFn fun i => host.user (src + BitVec.ofNat 64 i.val)), r)
    | .kernelRead pos _ =>
        some (match faults.read r.issued.length with
          | some err => .failed err
          | none => .read ((host.content.drop pos).take (host.file.size pos)), r)
    | .h2dXfer bus bytes addr =>
        some (faults.xfer r.issued.length,
          { issued := r.issued ++ [⟨bus, addr, bytes⟩],
            written := if faults.xfer r.issued.length = 0 then r.written ++ [⟨bus, addr, bytes⟩]
              else r.written })
    | .symbolPut | .filpClose | .vfree => some ((), r)
    | .spin => none
  interfere move _ := nomatch move

/-- A division of `bytes` into chunks that fit the bounce buffer. -/
structure Chunking (bytes : List Byte) (chunks : List (List Byte)) : Prop where
  whole : chunks.flatten = bytes
  nonempty : ∀ chunk ∈ chunks, chunk ≠ []
  small : ∀ chunk ∈ chunks, chunk.length ≤ ambaPciH2dChunkMax.toNat

theorem chunking_nil : Chunking [] [] := ⟨rfl, by simp, by simp⟩

theorem Chunking.cons {bytes : List Byte} {chunks : List (List Byte)} {size : Nat}
    (chunking : Chunking (bytes.drop size) chunks) (positive : 0 < size)
    (small : size ≤ ambaPciH2dChunkMax.toNat) (inside : size ≤ bytes.length) :
    Chunking bytes (bytes.take size :: chunks) := by
  have length : (bytes.take size).length = size := List.length_take_of_le inside
  refine ⟨?_, ?_, ?_⟩
  · rw [List.flatten_cons, chunking.whole, List.take_append_drop]
  · intro chunk inside
    rcases List.mem_cons.mp inside with rfl | later
    · apply List.ne_nil_of_length_pos
      rw [length]
      exact positive
    · exact chunking.nonempty chunk later
  · intro chunk inside
    rcases List.mem_cons.mp inside with rfl | later
    · omega
    · exact chunking.small chunk later

/-! The file path -/

/-- One pass that reads something. -/
theorem pcieH2dFileLoop_pass (host : H2dHost) (faults : H2dFaults) (bus : BitVec 32)
    (reads pos : Nat) (addr : BitVec 64) (r : H2dRecord) {chunk : List Byte}
    (some : chunk ≠ []) (read : (host.content.drop pos).take (host.file.size pos) = chunk)
    (rest : List (List Byte))
    (later : ∀ r', (host.driver faults).eval (pcieH2dFileLoop bus reads (pos + chunk.length)
        (addr + BitVec.ofNat 64 chunk.length)) r' =
      .some (deliver faults.read faults.xfer faults.read bus
        (addr + BitVec.ofNat 64 chunk.length) rest r')) :
    (host.driver faults).eval (pcieH2dFileLoop bus (reads + 1) pos addr) r =
      .some (deliver faults.read faults.xfer faults.read bus addr (chunk :: rest) r) := by
  obtain ⟨byte, more, rfl⟩ := List.exists_cons_of_ne_nil some
  unfold pcieH2dFileLoop
  rw [Driver.eval_perform _ rfl]
  cases failed : faults.read r.issued.length with
  | some err => simp only [failed, deliver, Prog.pure_eq_done, Driver.eval]
  | none =>
      simp only [read]
      rw [Driver.eval_perform _ rfl]
      by_cases sent : faults.xfer r.issued.length = 0
      · rw [if_neg (by simpa using sent)]
        rw [later]
        simp [deliver, failed, sent]
      · rw [if_pos sent]
        simp [deliver, failed, sent, Driver.eval]

theorem pcieH2dFileLoop_delivers (host : H2dHost) (bus : BitVec 32) (reads pos : Nat)
    (within : pos ≤ host.content.length) (enough : host.content.length < pos + reads) :
    ∃ chunks, Chunking (host.content.drop pos) chunks ∧ ∀ faults addr r,
      (host.driver faults).eval (pcieH2dFileLoop bus reads pos addr) r =
        some (deliver faults.read faults.xfer faults.read bus addr chunks r) := by
  induction reads generalizing pos with
  | zero => omega
  | succ reads ih =>
      have sum := host.file.inside pos (host.whole ▸ within)
      rw [host.whole] at sum
      by_cases ended : pos = host.content.length
      · have rest : host.content.drop pos = [] := by rw [ended, List.drop_length]
        refine ⟨[], rest ▸ chunking_nil, fun faults addr r => ?_⟩
        unfold pcieH2dFileLoop
        rw [Driver.eval_perform _ rfl]
        simp only [rest, List.take_nil]
        cases failed : faults.read r.issued.length with
        | some err => simp [deliver, failed, Driver.eval]
        | none => simp [deliver, failed, Driver.eval]
      · have positive := host.file.progress pos (by rw [host.whole]; omega)
        have size : ((host.content.drop pos).take (host.file.size pos)).length =
            host.file.size pos := by
          rw [List.length_take_of_le]
          rw [List.length_drop]
          omega
        obtain ⟨chunks, chunking, delivers⟩ := ih (pos + host.file.size pos) (by omega) (by omega)
        rw [← List.drop_drop] at chunking
        have left : host.file.size pos ≤ (host.content.drop pos).length := by
          rw [List.length_drop]
          omega
        refine ⟨_, chunking.cons positive (host.file.chunk pos) left, fun faults addr r => ?_⟩
        apply pcieH2dFileLoop_pass host faults bus reads pos addr r _ rfl
        · rw [size]
          exact fun r' => delivers faults _ r'
        · exact List.ne_nil_of_length_pos (by omega)

/-- The whole ioctl, when the slot is connected and the model follows the loop to its end. -/
theorem pcieIoctlH2dSendFile_delivers (host : H2dHost) (req : H2dSendFile)
    (accepted : h2dFileAccepted req = true) {index : Fin ambaPciDevMax}
    (addressed : h2dSlot req.slotId = some index) {bus : BitVec 32}
    (connected : h2dEntryBus (host.devs index) = .ok bus) {reads : Nat}
    (enough : host.content.length < reads) :
    ∃ chunks, Chunking host.content chunks ∧ ∀ faults,
      (host.driver faults).eval (pcieIoctlH2dSendFile reads (some req)) {} =
        some (deliver faults.read faults.xfer faults.read bus req.epAddr chunks {}) := by
  obtain ⟨-, -, passed⟩ := h2dFileAccepted_checks accepted
  obtain ⟨chunks, chunking, delivers⟩ := pcieH2dFileLoop_delivers host bus reads 0
    (Nat.zero_le host.content.length) (by omega)
  refine ⟨chunks, chunking, fun faults => ?_⟩
  have opened : (host.driver faults).eval (pcieH2dSendOpened bus reads req.epAddr) {} =
      some (deliver faults.read faults.xfer faults.read bus req.epAddr chunks {}) := by
    unfold pcieH2dSendOpened
    rw [Driver.eval_perform _ rfl, if_neg (by simp), Driver.eval_bind, delivers]
    rfl
  simp only [pcieIoctlH2dSendFile, addressed, if_neg passed]
  rw [Driver.eval_perform _ rfl, connected]
  simp only [pcieH2dSendPath]
  rw [Driver.eval_perform _ rfl, if_neg (by simp), Driver.eval_perform _ rfl,
    if_neg (by simp), Driver.eval_bind, opened]
  rfl

/-! The buffer path -/

/-- The error of the copy before a transfer. -/
def H2dFaults.copyError (faults : H2dFaults) (transfer : Nat) : Option Int :=
  if faults.copy transfer then some (-efault) else none

/-- User memory holds the content at `src`. -/
def H2dHost.HoldsAt (host : H2dHost) (src : BitVec 64) : Prop :=
  ∀ i (inside : i < host.content.length),
    host.user (src + BitVec.ofNat 64 i) = host.content[i]

/-- What a copy out of user memory fetches. -/
theorem H2dHost.HoldsAt.copied {host : H2dHost} {src : BitVec 64} (holds : host.HoldsAt src)
    (offset : BitVec 64) (length : Nat) (inside : offset.toNat + length ≤ host.content.length) :
    (Vector.ofFn fun i : Fin length =>
      host.user (src + offset + BitVec.ofNat 64 i.val)).toList =
        (host.content.drop offset.toNat).take length := by
  apply List.ext_getElem
  · rw [Vector.length_toList, List.length_take_of_le]
    rw [List.length_drop]
    omega
  · intro i small _
    rw [Vector.length_toList] at small
    have here := holds (offset.toNat + i) (by omega)
    have place : src + offset + BitVec.ofNat 64 i = src + BitVec.ofNat 64 (offset.toNat + i) := by
      rw [BitVec.ofNat_add, BitVec.ofNat_toNat, BitVec.setWidth_eq, BitVec.add_assoc]
    simp only [Vector.getElem_toList, Vector.getElem_ofFn, List.getElem_take, List.getElem_drop,
      place, here]

/-- Behind the last byte the loop makes no call. -/
theorem pcieH2dBufferLoop_ended (host : H2dHost) (bus : BitVec 32)
    (src size epAddr : BitVec 64) (whole : size.toNat = host.content.length) (passes : Nat)
    {offset : BitVec 64} (ended : ¬ offset < size) :
    ∃ chunks, Chunking (host.content.drop offset.toNat) chunks ∧ ∀ faults r,
      (host.driver faults).eval (pcieH2dBufferLoop bus src size epAddr (passes + 1) offset) r =
        some (deliver faults.copyError faults.xfer (fun _ => none) bus (epAddr + offset) chunks
          r) := by
  have behind := ended
  rw [BitVec.lt_def] at behind
  have rest : host.content.drop offset.toNat = [] := List.drop_eq_nil_of_le (by omega)
  refine ⟨[], rest ▸ chunking_nil, fun faults r => ?_⟩
  simp only [pcieH2dBufferLoop, if_neg ended, deliver, Option.getD_none]
  rfl

theorem pcieH2dBufferLoop_delivers (host : H2dHost) (bus : BitVec 32)
    (src size epAddr : BitVec 64) (holds : host.HoldsAt src)
    (whole : size.toNat = host.content.length) (passes : Nat) (offset : BitVec 64)
    (within : offset.toNat ≤ size.toNat)
    (enough : size.toNat ≤ offset.toNat + passes * ambaPciH2dChunkMax.toNat) :
    ∃ chunks, Chunking (host.content.drop offset.toNat) chunks ∧ ∀ faults r,
      (host.driver faults).eval (pcieH2dBufferLoop bus src size epAddr (passes + 1) offset) r =
        some (deliver faults.copyError faults.xfer (fun _ => none) bus (epAddr + offset) chunks
          r) := by
  have limit : ambaPciH2dChunkMax.toNat = 2097152 := by decide
  induction passes generalizing offset with
  | zero =>
      have ended : ¬ offset < size := by
        rw [BitVec.lt_def]
        omega
      exact pcieH2dBufferLoop_ended host bus src size epAddr whole 0 ended
  | succ passes ih =>
      have chunk := h2dChunkSize_toNat within
      have next : (offset + h2dChunkSize size offset).toNat =
          offset.toNat + (h2dChunkSize size offset).toNat := by
        have bound := size.isLt
        exact BitVec.toNat_add_of_lt (by omega)
      by_cases more : offset < size
      · have left : (h2dChunkSize size offset).toNat ≤
            (host.content.drop offset.toNat).length := by
          rw [List.length_drop]
          omega
        rw [BitVec.lt_def] at more
        rw [limit] at enough
        obtain ⟨chunks, chunking, delivers⟩ :=
          ih (offset + h2dChunkSize size offset) (by omega) (by rw [limit]; omega)
        rw [next, ← List.drop_drop] at chunking
        refine ⟨_, chunking.cons (by omega) (by omega) left, fun faults r => ?_⟩
        have fetched := holds.copied offset (h2dChunkSize size offset).toNat (by omega)
        have size' := congrArg List.length fetched
        rw [Vector.length_toList] at size'
        rw [← fetched]
        unfold pcieH2dBufferLoop
        rw [if_pos (BitVec.lt_def.mpr more), Driver.eval_perform _ rfl]
        cases failed : faults.copy r.issued.length with
        | true => simp [deliver, H2dFaults.copyError, failed, Driver.eval]
        | false =>
            have fine : faults.copyError r.issued.length = none := by
              simp [H2dFaults.copyError, failed]
            simp only [Bool.false_eq_true, ↓reduceIte]
            rw [Driver.eval_perform _ rfl]
            by_cases sent : faults.xfer r.issued.length = 0
            · rw [if_neg (by simpa using sent), delivers]
              simp [deliver, fine, sent, BitVec.add_assoc]
            · rw [if_pos sent]
              simp [deliver, fine, sent, Driver.eval]
      · exact pcieH2dBufferLoop_ended host bus src size epAddr whole (passes + 1) more

/-- The checks of the request itself, before the lock is taken. -/
def h2dBufferAccepted (req : H2dSendBuffer) : Bool :=
  (h2dSlot req.slotId).isSome && req.srcUserPtr != 0 && req.size != 0 && req.epAddr != 0 &&
    req.srcUserPtr ≤ BitVec.allOnes 64 - req.size && req.epAddr ≤ BitVec.allOnes 64 - req.size

theorem h2dBufferAccepted_checks {req : H2dSendBuffer} (accepted : h2dBufferAccepted req = true) :
    ∃ index, h2dSlot req.slotId = some index ∧ ¬ (req.srcUserPtr = 0 ∨ req.size = 0 ∨
      req.epAddr = 0 ∨ BitVec.allOnes 64 - req.size < req.srcUserPtr ∨
      BitVec.allOnes 64 - req.size < req.epAddr) := by
  simp only [h2dBufferAccepted, Bool.and_eq_true, bne_iff_ne, ne_eq, decide_eq_true_eq] at accepted
  obtain ⟨⟨⟨⟨⟨slot, source⟩, size⟩, safe⟩, sourceFits⟩, fits⟩ := accepted
  obtain ⟨index, addressed⟩ := Option.isSome_iff_exists.mp slot
  refine ⟨index, addressed, ?_⟩
  simp only [not_or]
  exact ⟨source, size, safe, BitVec.not_lt.mpr sourceFits, BitVec.not_lt.mpr fits⟩

theorem pcieIoctlH2dSendBuffer_delivers (host : H2dHost) (req : H2dSendBuffer)
    (accepted : h2dBufferAccepted req = true) {index : Fin ambaPciDevMax}
    (addressed : h2dSlot req.slotId = some index) {bus : BitVec 32}
    (connected : h2dEntryBus (host.devs index) = .ok bus) (holds : host.HoldsAt req.srcUserPtr)
    (whole : req.size.toNat = host.content.length) :
    ∃ chunks, Chunking host.content chunks ∧ ∀ faults,
      (host.driver faults).eval (pcieIoctlH2dSendBuffer (some req)) {} =
        some (deliver faults.copyError faults.xfer (fun _ => none) bus req.epAddr chunks {}) := by
  have limit : ambaPciH2dChunkMax.toNat = 2097152 := by decide
  obtain ⟨-, -, passed⟩ := h2dBufferAccepted_checks accepted
  obtain ⟨chunks, chunking, delivers⟩ := pcieH2dBufferLoop_delivers host bus req.srcUserPtr
    req.size req.epAddr holds whole (req.size.toNat / ambaPciH2dChunkMax.toNat + 1) 0
    (Nat.zero_le _) (by rw [limit]; show _ ≤ 0 + _; omega)
  refine ⟨chunks, chunking, fun faults => ?_⟩
  have loop := delivers faults {}
  rw [show req.epAddr + 0 = req.epAddr from BitVec.add_zero _] at loop
  simp only [pcieIoctlH2dSendBuffer, addressed, if_neg passed]
  rw [Driver.eval_perform _ rfl, connected]
  simp only [pcieH2dSendCopied]
  rw [Driver.eval_perform _ rfl, if_neg (by simp), Driver.eval_perform _ rfl,
    if_neg (by simp), Driver.eval_bind, h2dPasses, loop]
  rfl

/-! Both paths -/

/-- What the calls leave in the memories of the cards, by their bus. -/
def runWrites (memories : BitVec 32 → Memory) (calls : List BusWrite) : BitVec 32 → Memory :=
  calls.foldl (fun memories call =>
    Function.update memories call.bus
      (storeBytes (memories call.bus) call.addr.toNat call.bytes)) memories

/-- The calls write `bytes` on `bus` from `start` on, one behind the other: every call starts, as an
integer, where the one before it ends, and carries at least one byte and at most `most`. -/
def TilesRange (bus : BitVec 32) (most start : Nat) : List BusWrite → List Byte → Prop
  | [], bytes => bytes = []
  | call :: calls, bytes =>
      call.bus = bus ∧ call.addr.toNat = start ∧ 0 < call.bytes.length ∧
        call.bytes.length ≤ most ∧ ∃ rest, bytes = call.bytes ++ rest ∧
          TilesRange bus most (start + call.bytes.length) calls rest

theorem TilesRange.run {bus : BitVec 32} {most start : Nat} {calls : List BusWrite}
    {bytes : List Byte} (tiles : TilesRange bus most start calls bytes)
    (memories : BitVec 32 → Memory) :
    runWrites memories calls =
      Function.update memories bus (storeBytes (memories bus) start bytes) := by
  induction calls generalizing start bytes memories with
  | nil =>
      have none : bytes = [] := tiles
      rw [none, storeBytes_nil, Function.update_eq_self]
      rfl
  | cons call calls ih =>
      obtain ⟨onBus, here, -, -, rest, rfl, later⟩ := tiles
      have next := ih later
        (Function.update memories bus (storeBytes (memories bus) start call.bytes))
      rw [Function.update_self, Function.update_idem, storeBytes_append] at next
      rw [← next, ← onBus, ← here]
      rfl

/-- Short of the end of the address space. -/
theorem Chunking.tilesRange {bytes : List Byte} {chunks : List (List Byte)}
    (chunking : Chunking bytes chunks) (bus : BitVec 32) (addr : BitVec 64)
    (room : addr.toNat + bytes.length < 2 ^ 64) :
    TilesRange bus ambaPciH2dChunkMax.toNat addr.toNat (tileWrites bus addr chunks) bytes := by
  obtain ⟨whole, nonempty, small⟩ := chunking
  subst whole
  induction chunks generalizing addr with
  | nil => rfl
  | cons chunk chunks ih =>
      rw [List.flatten_cons, List.length_append] at room
      have next := addr_add_toNat addr chunk.length (by omega)
      have later := ih (addr + BitVec.ofNat 64 chunk.length)
        (fun other inside => nonempty other (List.mem_cons_of_mem _ inside))
        (fun other inside => small other (List.mem_cons_of_mem _ inside)) (by omega)
      rw [next] at later
      exact ⟨rfl, rfl, List.length_pos_iff.mpr (nonempty chunk List.mem_cons_self),
        small chunk List.mem_cons_self, chunks.flatten, rfl, later⟩

/-- What one path does for `bytes` at `epAddr` of the card on `bus`: its calls, when nothing fails,
and where it stops when a transfer, or the step that fetches its data, is the first to fail. `fetch`
is the error of that step. -/
structure PathDelivers (run : H2dFaults → Option (Int × H2dRecord))
    (fetch : H2dFaults → Nat → Option Int) (bus : BitVec 32) (epAddr : BitVec 64)
    (bytes : List Byte) (calls : List BusWrite) : Prop where
  tiles : TilesRange bus ambaPciH2dChunkMax.toNat epAddr.toNat calls bytes
  done : ∀ faults, (∀ k, fetch faults k = none) → (∀ k, faults.xfer k = 0) →
    run faults = some (0, ⟨calls, calls⟩)
  xferFails : ∀ faults, ∀ k < calls.length, SmoothUntil (fetch faults) faults.xfer 0 k →
    fetch faults k = none → faults.xfer k ≠ 0 →
      run faults = some (faults.xfer k, ⟨calls.take (k + 1), calls.take k⟩)
  fetchFails : ∀ faults, ∀ k < calls.length, SmoothUntil (fetch faults) faults.xfer 0 k →
    ∀ err, fetch faults k = some err → run faults = some (err, ⟨calls.take k, calls.take k⟩)

theorem Chunking.pathDelivers {bytes : List Byte} {chunks : List (List Byte)}
    (chunking : Chunking bytes chunks) {bus : BitVec 32} {epAddr : BitVec 64}
    (room : epAddr.toNat + bytes.length < 2 ^ 64) {fetch last : H2dFaults → Nat → Option Int}
    (ended : ∀ faults, (∀ k, fetch faults k = none) → ∀ k, last faults k = none)
    {run : H2dFaults → Option (Int × H2dRecord)}
    (delivers : ∀ faults, run faults =
      some (deliver (fetch faults) faults.xfer (last faults) bus epAddr chunks {})) :
    PathDelivers run fetch bus epAddr bytes (tileWrites bus epAddr chunks) := by
  refine ⟨chunking.tilesRange bus epAddr room, ?_, ?_, ?_⟩
  · intro faults fetched sent
    rw [delivers, deliver_smooth _ bus epAddr chunks fetched sent (ended faults fetched)]
  · intro faults k within smooth fetched failed
    rw [tileWrites_length] at within
    obtain ⟨next, chunk, rest, here, stops⟩ :=
      deliver_upto (last faults) bus epAddr chunks within smooth
    have number : ((tileWrites bus epAddr chunks).take k).length = k := by
      rw [List.length_take_of_le]
      rw [tileWrites_length]
      omega
    rw [delivers, stops]
    simp only [deliver, number, fetched, failed, ne_eq, not_false_eq_true, ↓reduceIte]
    rw [List.take_add_one, here]
    rfl
  · intro faults k within smooth err failed
    rw [tileWrites_length] at within
    obtain ⟨next, chunk, rest, -, stops⟩ :=
      deliver_upto (last faults) bus epAddr chunks within smooth
    have number : ((tileWrites bus epAddr chunks).take k).length = k := by
      rw [List.length_take_of_le]
      rw [tileWrites_length]
      omega
    rw [delivers, stops]
    simp only [deliver, number, failed]

/-- The same bytes, in the file and at the source address in user memory, are to go to the same
address of the card that is connected in one slot. -/
structure SameTransfer (host : H2dHost) (index : Fin ambaPciDevMax) (pdev : PciDev)
    (fileReq : H2dSendFile) (bufferReq : H2dSendBuffer) (epAddr : BitVec 64) : Prop where
  used : (host.devs index).inUse = true
  attached : (host.devs index).pdev = some pdev
  connected : (host.devs index).state = .connected
  fileAccepted : h2dFileAccepted fileReq = true
  bufferAccepted : h2dBufferAccepted bufferReq = true
  fileSlot : h2dSlot fileReq.slotId = some index
  bufferSlot : h2dSlot bufferReq.slotId = some index
  fileAddr : fileReq.epAddr = epAddr
  bufferAddr : bufferReq.epAddr = epAddr
  size : bufferReq.size.toNat = host.content.length
  source : host.HoldsAt bufferReq.srcUserPtr

variable {host : H2dHost} {index : Fin ambaPciDevMax} {pdev : PciDev} {fileReq : H2dSendFile}
  {bufferReq : H2dSendBuffer} {epAddr : BitVec 64}

theorem SameTransfer.bus (same : SameTransfer host index pdev fileReq bufferReq epAddr) :
    h2dEntryBus (host.devs index) = .ok (pdev.bus.setWidth 32) := by
  simp only [h2dEntryBus, same.used, same.attached, same.connected, ne_eq, not_true_eq_false,
    ↓reduceIte]

/-- An accepted buffer request ends inside the address space. -/
theorem SameTransfer.room (same : SameTransfer host index pdev fileReq bufferReq epAddr) :
    epAddr.toNat + host.content.length < 2 ^ 64 := by
  obtain ⟨-, -, passed⟩ := h2dBufferAccepted_checks same.bufferAccepted
  have fits := h2dBuffer_fits passed
  rw [← same.bufferAddr, ← same.size]
  exact fits

/-- Whatever the split of the file into reads, both ioctls deliver the same bytes to the card of the
slot, and leave the same memory there and no other anywhere else. -/
theorem h2d_paths_deliver (host : H2dHost) (index : Fin ambaPciDevMax) (pdev : PciDev)
    (fileReq : H2dSendFile) (bufferReq : H2dSendBuffer) (epAddr : BitVec 64)
    (same : SameTransfer host index pdev fileReq bufferReq epAddr) (reads : Nat)
    (enough : host.content.length < reads) :
    ∃ fileCalls bufferCalls,
      PathDelivers (fun faults => (host.driver faults).eval
          (pcieIoctlH2dSendFile reads (some fileReq)) {})
        H2dFaults.read (pdev.bus.setWidth 32) epAddr host.content fileCalls ∧
      PathDelivers (fun faults => (host.driver faults).eval
          (pcieIoctlH2dSendBuffer (some bufferReq)) {})
        H2dFaults.copyError (pdev.bus.setWidth 32) epAddr host.content bufferCalls ∧
      ∀ memories,
        runWrites memories fileCalls = Function.update memories (pdev.bus.setWidth 32)
          (storeBytes (memories (pdev.bus.setWidth 32)) epAddr.toNat host.content) ∧
        runWrites memories bufferCalls = Function.update memories (pdev.bus.setWidth 32)
          (storeBytes (memories (pdev.bus.setWidth 32)) epAddr.toNat host.content) := by
  have room := same.room
  obtain ⟨fileChunks, fileChunking, fileDelivers⟩ :=
    pcieIoctlH2dSendFile_delivers host fileReq same.fileAccepted same.fileSlot same.bus enough
  obtain ⟨bufferChunks, bufferChunking, bufferDelivers⟩ :=
    pcieIoctlH2dSendBuffer_delivers host bufferReq same.bufferAccepted same.bufferSlot same.bus
      same.source same.size
  rw [same.fileAddr] at fileDelivers
  rw [same.bufferAddr] at bufferDelivers
  have file := fileChunking.pathDelivers room (fun _ fetched => fetched) fileDelivers
  have buffer := bufferChunking.pathDelivers room (fun _ _ _ => rfl) bufferDelivers
  exact ⟨_, _, file, buffer, fun memories => ⟨file.tiles.run memories, buffer.tiles.run memories⟩⟩

/-- Two bytes, read one at a time, and the same two bytes at 0x1000 in user memory. Only slot 0 has
a card. -/
def twoByteHost : H2dHost where
  devs index := if index = 0 then connectedEntry else {}
  content := [1, 2]
  file :=
    { length := 2
      size := fun pos => if pos < 2 then 1 else 0
      progress := fun pos before => by simp [before]
      chunk := fun pos => by
        have limit : ambaPciH2dChunkMax.toNat = 2097152 := by decide
        split <;> omega
      inside := fun pos within => by split <;> omega }
  whole := rfl
  user addr := if addr = 0x1000 then 1 else 2

theorem twoByteHost_sameTransfer : SameTransfer twoByteHost 0
    (cardAt 1 1 ambaPciVirtioDeviceId) (fileRequest 0x8000000) ⟨0, 0x1000, 2, 0x8000000⟩
    0x8000000 where
  used := rfl
  attached := rfl
  connected := rfl
  fileAccepted := by decide +kernel
  bufferAccepted := by decide
  fileSlot := rfl
  bufferSlot := rfl
  fileAddr := rfl
  bufferAddr := rfl
  size := rfl
  source := fun
    | 0, _ => rfl
    | 1, _ => rfl
    | i + 2, inside => absurd inside (by simp [twoByteHost])

theorem h2d_paths_deliver_two :
    ∃ fileCalls bufferCalls,
      PathDelivers (fun faults => (twoByteHost.driver faults).eval
          (pcieIoctlH2dSendFile 3 (some (fileRequest 0x8000000))) {})
        H2dFaults.read 1 0x8000000 [1, 2] fileCalls ∧
      PathDelivers (fun faults => (twoByteHost.driver faults).eval
          (pcieIoctlH2dSendBuffer (some ⟨0, 0x1000, 2, 0x8000000⟩)) {})
        H2dFaults.copyError 1 0x8000000 [1, 2] bufferCalls ∧
      ∀ memories,
        runWrites memories fileCalls =
          Function.update memories 1 (storeBytes (memories 1) 0x8000000 [1, 2]) ∧
        runWrites memories bufferCalls =
          Function.update memories 1 (storeBytes (memories 1) 0x8000000 [1, 2]) :=
  h2d_paths_deliver twoByteHost 0 _ _ _ _ twoByteHost_sameTransfer 3 (by decide)

end AmbaPci

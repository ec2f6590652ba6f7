import AmbaPci.DriverCalls
import AmbaPci.InteractionMachine
import AmbaPci.SlotSystem
import Mathlib.Data.List.DropRight

set_option autoImplicit false

/- Which texts the reboot node takes. -/
namespace AmbaPci

open ByteMemory (Byte)
open Interaction Interaction.Machine

/-- Nothing but white space. -/
def Blank (s : List Byte) : Prop := ∀ c ∈ s, isSpace c = true

/-- A numeral of value one: an optional plus sign, any number of zeros, and a one. -/
def OneText (s : List Byte) : Prop :=
  ∃ sign zeros, (sign = [] ∨ sign = [43]) ∧ s = sign ++ List.replicate zeros 48 ++ [49]

/-! Numerals -/

def digitsValue (digits : List Byte) : Nat :=
  digits.foldl (fun value c => value * 10 + (c.toNat - 48)) 0

theorem digitsValue_concat (digits : List Byte) (c : Byte) :
    digitsValue (digits ++ [c]) = digitsValue digits * 10 + (c.toNat - 48) := by
  simp only [digitsValue, List.foldl_append, List.foldl_cons, List.foldl_nil]

theorem isDigit_bounds {c : Byte} (digit : isDigit c = true) : 48 ≤ c.toNat ∧ c.toNat ≤ 57 := by
  simp only [isDigit, decide_eq_true_eq] at digit
  exact ⟨BitVec.le_def.mp digit.1, BitVec.le_def.mp digit.2⟩

theorem digitsValue_zeros (count : Nat) : digitsValue (List.replicate count 48) = 0 := by
  induction count with
  | zero => rfl
  | succ count ih => rw [List.replicate_succ', digitsValue_concat, ih]; rfl

theorem zeros_of_digitsValue {digits : List Byte} (all : ∀ c ∈ digits, isDigit c = true)
    (zero : digitsValue digits = 0) : digits = List.replicate digits.length 48 := by
  induction digits using List.reverseRecOn with
  | nil => rfl
  | append_singleton digits c ih =>
      rw [digitsValue_concat] at zero
      have digit := isDigit_bounds (all c (by simp))
      have last : c = 48 := BitVec.eq_of_toNat_eq (by show c.toNat = 48; omega)
      have before := ih (fun d inside => all d (by simp [inside])) (by omega)
      rw [List.length_append, List.length_singleton, List.replicate_succ', ← before, last]

theorem digitsValue_one_iff {digits : List Byte} (all : ∀ c ∈ digits, isDigit c = true) :
    digitsValue digits = 1 ↔ ∃ zeros, digits = List.replicate zeros 48 ++ [49] := by
  constructor
  · intro one
    cases digits using List.reverseRecOn with
    | nil => cases one
    | append_singleton digits c =>
        rw [digitsValue_concat] at one
        have digit := isDigit_bounds (all c (by simp))
        have last : c = 49 := BitVec.eq_of_toNat_eq (by show c.toNat = 49; omega)
        have before := zeros_of_digitsValue (fun d inside => all d (by simp [inside]))
          (by omega : digitsValue digits = 0)
        exact ⟨digits.length, by rw [← before, last]⟩
  · rintro ⟨zeros, rfl⟩
    rw [digitsValue_concat, digitsValue_zeros]
    rfl

theorem one_digits (zeros : Nat) :
    ∀ c ∈ List.replicate zeros (48 : Byte) ++ [49], isDigit c = true := by
  intro c inside
  rcases List.mem_append.mp inside with zero | one
  · rw [List.eq_of_mem_replicate zero]
    rfl
  · rw [List.mem_singleton.mp one]
    rfl

theorem kstrtoull_one_iff (s : List Byte) :
    kstrtoull s = some 1 ↔
      ∃ zeros rest, s = List.replicate zeros 48 ++ [49] ++ rest ∧ (rest = [] ∨ rest = [10]) := by
  constructor
  · intro read
    have all : ∀ c ∈ s.takeWhile isDigit, isDigit c = true := fun c inside =>
      List.mem_takeWhile_imp inside
    simp only [kstrtoull, Option.ite_none_left_eq_some] at read
    obtain ⟨-, read⟩ := read
    split at read
    · rename_i rest
      obtain ⟨zeros, digits⟩ := (digitsValue_one_iff all).mp (Option.some.inj read)
      exact ⟨zeros, s.dropWhile isDigit,
        by rw [← digits, List.takeWhile_append_dropWhile], rest⟩
    · cases read
  · rintro ⟨zeros, rest, rfl, line⟩
    have all := one_digits zeros
    have value := (digitsValue_one_iff all).mpr ⟨zeros, rfl⟩
    have stops : rest.takeWhile isDigit = [] ∧ rest.dropWhile isDigit = rest := by
      rcases line with rfl | rfl
      · exact ⟨rfl, rfl⟩
      · exact ⟨rfl, rfl⟩
    have digits : (List.replicate zeros 48 ++ [49] ++ rest).takeWhile isDigit =
        List.replicate zeros 48 ++ [49] := by
      rw [List.takeWhile_append_of_pos all, stops.1, List.append_nil]
    have after : (List.replicate zeros 48 ++ [49] ++ rest).dropWhile isDigit = rest := by
      rw [List.dropWhile_append_of_pos all, stops.2]
    unfold digitsValue at value
    simp only [kstrtoull, digits, after, value, line, ↓reduceIte]
    simp

theorem ofNat_map_one {read : Option Nat} : read.map Int.ofNat = some 1 ↔ read = some 1 := by
  constructor
  · intro one
    obtain ⟨value, found, same⟩ := Option.map_eq_some_iff.mp one
    rw [found]
    congr 1
    have equal : (value : Int) = 1 := same
    omega
  · rintro rfl
    rfl

theorem kstrtoint_one_iff (s : List Byte) :
    kstrtoint s = some 1 ↔ ∃ w rest, s = w ++ rest ∧ OneText w ∧ (rest = [] ∨ rest = [10]) := by
  constructor
  · intro read
    obtain ⟨signed, -⟩ := Option.filter_eq_some_iff.mp read
    split at signed
    · -- a value below a minus sign is not positive
      cases read : kstrtoull s.tail with
      | none =>
          rw [read] at signed
          cases signed
      | some value =>
          rw [read] at signed
          have equal : -(value : Int) = 1 := Option.some.inj signed
          omega
    · split at signed
      · rename_i plus
        obtain ⟨zeros, rest, text, line⟩ :=
          (kstrtoull_one_iff _).mp (ofNat_map_one.mp signed)
        refine ⟨[43] ++ List.replicate zeros 48 ++ [49], rest, ?_, ⟨_, zeros, .inr rfl, rfl⟩, line⟩
        obtain ⟨rest', same⟩ := List.head?_eq_some_iff.mp plus
        subst same
        rw [List.tail_cons] at text
        rw [text]
        simp
      · obtain ⟨zeros, rest, text, line⟩ :=
          (kstrtoull_one_iff _).mp (ofNat_map_one.mp signed)
        exact ⟨List.replicate zeros 48 ++ [49], rest, text, ⟨[], zeros, .inl rfl, rfl⟩, line⟩
  · rintro ⟨w, rest, rfl, ⟨sign, zeros, sign', rfl⟩, line⟩
    have read := (kstrtoull_one_iff _).mpr ⟨zeros, rest, rfl, line⟩
    have signed := ofNat_map_one.mpr read
    have small : (-2 ^ 31 ≤ (1 : Int) ∧ (1 : Int) < 2 ^ 31) := by decide
    unfold kstrtoint
    apply Option.filter_eq_some_iff.mpr
    refine ⟨?_, decide_eq_true small⟩
    rcases sign' with rfl | rfl
    · have first : (List.replicate zeros (48 : Byte) ++ [49] ++ rest).head? = some 48 ∨
          (List.replicate zeros (48 : Byte) ++ [49] ++ rest).head? = some 49 := by
        cases zeros with
        | zero => exact Or.inr rfl
        | succ zeros => exact Or.inl rfl
      rw [List.nil_append]
      rcases first with first | first
      · rw [first, if_neg (by decide), if_neg (by decide)]
        exact signed
      · rw [first, if_neg (by decide), if_neg (by decide)]
        exact signed
    · exact signed

/-! White space -/

theorem Blank.nil : Blank [] := by simp [Blank]

theorem Blank.append {first rest : List Byte} (before : Blank first) (after : Blank rest) :
    Blank (first ++ rest) := by
  intro c inside
  rcases List.mem_append.mp inside with here | here
  · exact before c here
  · exact after c here

theorem Blank.not_zero {s : List Byte} (blank : Blank s) : ∀ c ∈ s, c ≠ 0 := by
  rintro c inside rfl
  have space := blank 0 inside
  simp [isSpace] at space

theorem strim_append_blank (s : List Byte) {blank : List Byte} (spaces : Blank blank) :
    strim (s ++ blank) = strim s := by
  unfold strim
  rw [List.reverse_append, List.dropWhile_append_of_pos]
  intro c inside
  exact spaces c (List.mem_reverse.mp inside)

/-- What `strim` cuts is white space. -/
theorem strim_split (s : List Byte) : ∃ blank, Blank blank ∧ s = strim s ++ blank := by
  refine ⟨(s.reverse.takeWhile isSpace).reverse, ?_, ?_⟩
  · intro c inside
    exact List.mem_takeWhile_imp (List.mem_reverse.mp inside)
  · unfold strim
    rw [← List.reverse_append, List.takeWhile_append_dropWhile, List.reverse_reverse]

theorem strim_concat (s : List Byte) {c : Byte} (solid : isSpace c = false) :
    strim (s ++ [c]) = s ++ [c] := by
  unfold strim
  rw [List.reverse_append, List.reverse_singleton, List.singleton_append,
    List.dropWhile_cons_of_neg (by simp [solid])]
  simp

/-- A text whose trailing white space is cut does not end in a newline. -/
theorem strim_not_newline (s w : List Byte) : strim s ≠ w ++ [10] := by
  intro ends
  have line : Blank [10] := by
    intro c inside
    rw [List.mem_singleton.mp inside]
    rfl
  have again : strim (strim s) = strim s := List.rdropWhile_idempotent isSpace s
  rw [ends, strim_append_blank w line] at again
  have shorter : (strim w).length ≤ w.length := (List.rdropWhile_prefix isSpace w).length_le
  rw [again, List.length_append, List.length_singleton] at shorter
  omega

/-! Numerals of value one -/

/-- The one that a numeral ends with is its only one. -/
theorem OneText.split {w : List Byte} (one : OneText w) :
    ∃ before, w = before ++ [49] ∧ ∀ c ∈ before, c ≠ 49 ∧ c ≠ 0 ∧ isSpace c = false := by
  obtain ⟨sign, zeros, sign', rfl⟩ := one
  refine ⟨sign ++ List.replicate zeros 48, rfl, fun c inside => ?_⟩
  rcases List.mem_append.mp inside with plus | zero
  · rcases sign' with rfl | rfl
    · cases plus
    · rw [List.mem_singleton.mp plus]
      decide
  · rw [List.eq_of_mem_replicate zero]
    decide

/-- No character of a numeral is NUL or white space. -/
theorem OneText.solid {w : List Byte} (one : OneText w) :
    ∀ c ∈ w, c ≠ 0 ∧ isSpace c = false := by
  obtain ⟨before, rfl, others⟩ := one.split
  intro c inside
  rcases List.mem_append.mp inside with early | last
  · exact (others c early).2
  · rw [List.mem_singleton.mp last]
    decide

theorem OneText.takeWhile {w : List Byte} (one : OneText w) (rest : List Byte) :
    (w ++ rest).takeWhile (· ≠ 49) ++ [49] = w := by
  obtain ⟨before, rfl, others⟩ := one.split
  rw [List.append_assoc, List.takeWhile_append_of_pos (fun c inside => by
    simpa using (others c inside).1)]
  simp

/-- A text begins with one numeral of value one at most. -/
theorem OneText.unique {w w' rest rest' : List Byte} (one : OneText w) (one' : OneText w')
    (same : w ++ rest = w' ++ rest') : w = w' ∧ rest = rest' := by
  have equal : w = w' := by rw [← one.takeWhile rest, same, one'.takeWhile rest']
  subst equal
  exact ⟨rfl, List.append_cancel_left same⟩

theorem OneText.strim {w : List Byte} (one : OneText w) : strim w = w := by
  obtain ⟨before, rfl, -⟩ := one.split
  exact strim_concat before (by decide)

theorem OneText.cons {w : List Byte} (one : OneText w) :
    ∃ c rest, w = c :: rest ∧ isSpace c = false := by
  cases w with
  | nil =>
      obtain ⟨before, bad, -⟩ := one.split
      simp at bad
  | cons c rest => exact ⟨c, rest, rfl, (one.solid c List.mem_cons_self).2⟩

/-- White space before a numeral is before every numeral. -/
theorem OneText.lead_nil {lead w rest w' rest' : List Byte} (blank : Blank lead)
    (one' : OneText w') (same : lead ++ w ++ rest = w' ++ rest') : lead = [] := by
  cases lead with
  | nil => rfl
  | cons c lead =>
      obtain ⟨d, rest'', rfl, solid⟩ := one'.cons
      simp only [List.cons_append, List.cons.injEq] at same
      have space := blank c List.mem_cons_self
      rw [same.1, solid] at space
      cases space

theorem kstrtoint_strim_one_iff (s : List Byte) :
    kstrtoint (strim s) = some 1 ↔ ∃ w blank, s = w ++ blank ∧ OneText w ∧ Blank blank := by
  constructor
  · intro read
    obtain ⟨w, rest, text, one, line⟩ := (kstrtoint_one_iff _).mp read
    obtain ⟨blank, spaces, split⟩ := strim_split s
    rcases line with rfl | rfl
    · rw [List.append_nil] at text
      exact ⟨w, blank, by rw [← text, ← split], one, spaces⟩
    · exact absurd text (strim_not_newline s w)
  · rintro ⟨w, blank, rfl, one, spaces⟩
    rw [strim_append_blank w spaces, one.strim]
    exact (kstrtoint_one_iff w).mpr ⟨w, [], by simp, one, .inl rfl⟩

/-! What is asked of the node, and what it does -/

/-- A text without the white space on both sides. -/
def trim (s : List Byte) : List Byte := strim (s.dropWhile isSpace)

/-- The whole text, white space on both sides apart, is a numeral that `kstrtoint` reads as 1. -/
def ReadsAsOne (s : List Byte) : Prop := kstrtoint (trim s) = some 1

instance (s : List Byte) : Decidable (ReadsAsOne s) := inferInstanceAs (Decidable (_ = _))

/-- A numeral of value one that the node does not see: after white space, or with its one beyond
the bytes that are copied. -/
def Overlooked (s : List Byte) : Prop :=
  ∃ lead w blank, s = lead ++ w ++ blank ∧ Blank lead ∧ OneText w ∧ Blank blank ∧
    (lead ≠ [] ∨ 15 < w.length)

/-- A numeral of value one followed by what the node does not see: beyond the bytes that are copied,
or after a NUL among them. -/
def CutShort (s : List Byte) : Prop :=
  ∃ w blank rest, s = w ++ blank ++ rest ∧ OneText w ∧ Blank blank ∧ ¬ Blank rest ∧
    ((w ++ blank).length = 15 ∨ (w ++ blank).length < 15 ∧ rest.head? = some 0)

theorem readsAsOne_iff (s : List Byte) :
    ReadsAsOne s ↔ ∃ lead w blank, s = lead ++ w ++ blank ∧ Blank lead ∧ OneText w ∧
      Blank blank := by
  unfold ReadsAsOne trim
  rw [kstrtoint_strim_one_iff]
  constructor
  · rintro ⟨w, blank, text, one, spaces⟩
    refine ⟨s.takeWhile isSpace, w, blank, ?_, fun c inside => List.mem_takeWhile_imp inside, one,
      spaces⟩
    rw [List.append_assoc, ← text, List.takeWhile_append_dropWhile]
  · rintro ⟨lead, w, blank, rfl, lead', one, spaces⟩
    refine ⟨w, blank, ?_, one, spaces⟩
    obtain ⟨c, rest, rfl, solid⟩ := one.cons
    rw [List.append_assoc, List.dropWhile_append_of_pos lead', List.cons_append,
      List.dropWhile_cons_of_neg (by simp [solid])]

theorem rebootCmd_one_iff (s : List Byte) :
    rebootCmd s = some 1 ↔
      ∃ w blank, cString (s.take 15) = w ++ blank ∧ OneText w ∧ Blank blank :=
  kstrtoint_strim_one_iff _

/-! Where the two differ -/

theorem cString_starts (s : List Byte) : cString s <+: s := List.takeWhile_prefix _

/-- Without a NUL the copy is what fits. -/
theorem cString_eq_self {s : List Byte} (solid : ∀ c ∈ s, c ≠ 0) : cString s = s :=
  List.takeWhile_eq_self_iff.mpr fun c inside => by simpa using solid c inside

theorem Overlooked.differs {s : List Byte} (overlooked : Overlooked s) :
    ReadsAsOne s ∧ rebootCmd s ≠ some 1 := by
  obtain ⟨lead, w, blank, text, lead', one, spaces, why⟩ := overlooked
  refine ⟨(readsAsOne_iff s).mpr ⟨lead, w, blank, text, lead', one, spaces⟩, fun taken => ?_⟩
  obtain ⟨w', blank', copied, one', -⟩ := (rebootCmd_one_iff s).mp taken
  obtain ⟨after, split⟩ := (cString_starts (s.take 15)).trans (List.take_prefix 15 s)
  rw [copied, List.append_assoc] at split
  have same : lead ++ w ++ blank = w' ++ (blank' ++ after) := by rw [← text, split]
  rcases why with led | long
  · exact led (OneText.lead_nil lead' one' same)
  · have none := OneText.lead_nil lead' one' same
    subst none
    obtain ⟨equal, -⟩ := one.unique one' same
    have shorter := (cString_starts (s.take 15)).length_le
    rw [copied, List.length_append, ← equal, List.length_take] at shorter
    omega

theorem CutShort.differs {s : List Byte} (cut : CutShort s) :
    rebootCmd s = some 1 ∧ ¬ ReadsAsOne s := by
  obtain ⟨w, blank, rest, rfl, one, spaces, more, ends⟩ := cut
  have solid : ∀ c ∈ w ++ blank, c ≠ 0 := by
    intro c inside
    rcases List.mem_append.mp inside with here | here
    · exact (one.solid c here).1
    · exact spaces.not_zero c here
  constructor
  · apply (rebootCmd_one_iff _).mpr
    refine ⟨w, blank, ?_, one, spaces⟩
    rcases ends with full | ⟨short, nul⟩
    · rw [List.take_append_of_le_length (by omega), List.take_of_length_le (by omega)]
      exact cString_eq_self solid
    · obtain ⟨rest, rfl⟩ := List.head?_eq_some_iff.mp nul
      obtain ⟨room, sized⟩ : ∃ room, 15 - (w ++ blank).length = room + 1 :=
        ⟨14 - (w ++ blank).length, by omega⟩
      rw [List.take_append, List.take_of_length_le (by omega), sized, List.take_succ_cons]
      unfold cString
      rw [List.takeWhile_append_of_pos fun c inside => by simpa using solid c inside,
        List.takeWhile_cons_of_neg (by simp), List.append_nil]
  · intro reads
    obtain ⟨lead, w', blank', text, lead', one', spaces'⟩ := (readsAsOne_iff _).mp reads
    have same : lead ++ w' ++ blank' = w ++ (blank ++ rest) := by rw [← text, List.append_assoc]
    have none := OneText.lead_nil lead' one same
    subst none
    obtain ⟨-, tail⟩ := one'.unique one same
    apply more
    intro c inside
    apply spaces' c
    rw [tail]
    exact List.mem_append_right blank inside

/-- Where the copy ends: at a NUL, or with the 15 bytes that fit, or with the text. -/
theorem copy_ends {s copied rest : List Byte} (copies : cString (s.take 15) = copied)
    (text : s = copied ++ rest) :
    copied.length = 15 ∨ copied.length < 15 ∧ rest.head? = some 0 ∨ rest = [] := by
  have split : copied ++ (s.take 15).dropWhile (· ≠ 0) = s.take 15 := by
    rw [← copies]
    exact List.takeWhile_append_dropWhile
  have length := congrArg List.length split
  rw [List.length_append, List.length_take] at length
  have size := congrArg List.length text
  rw [List.length_append] at size
  cases after : (s.take 15).dropWhile (· ≠ 0) with
  | nil =>
      rw [after, List.length_nil] at length
      by_cases long : 15 ≤ s.length
      · exact .inl (by omega)
      · exact .inr (.inr (List.eq_nil_of_length_eq_zero (by omega)))
  | cons c more =>
      have nul : c = 0 := by
        have stops := List.head?_dropWhile_not (fun c : Byte => decide (c ≠ 0)) (s.take 15)
        rw [after] at stops
        simpa using stops
      rw [after, List.length_cons] at length
      refine .inr (.inl ⟨by omega, ?_⟩)
      have whole : copied ++ (c :: more) ++ s.drop 15 = copied ++ rest := by
        rw [← after, split, List.take_append_drop, text]
      rw [List.append_assoc] at whole
      rw [← List.append_cancel_left whole, nul]
      rfl

/-- Every other text is taken exactly when it reads as 1. -/
theorem rebootCmd_one_iff_reads {s : List Byte} (seen : ¬ Overlooked s) (whole : ¬ CutShort s) :
    rebootCmd s = some 1 ↔ ReadsAsOne s := by
  rw [rebootCmd_one_iff, readsAsOne_iff]
  constructor
  · rintro ⟨w, blank, copied, one, spaces⟩
    obtain ⟨rest, split⟩ := (cString_starts (s.take 15)).trans (List.take_prefix 15 s)
    rw [copied] at split
    have text := split.symm
    by_cases spaces' : Blank rest
    · exact ⟨[], w, blank ++ rest, by rw [text]; simp, Blank.nil, one, spaces.append spaces'⟩
    · rcases copy_ends copied text with full | nul | none
      · exact absurd ⟨w, blank, rest, text, one, spaces, spaces', .inl full⟩ whole
      · exact absurd ⟨w, blank, rest, text, one, spaces, spaces', .inr nul⟩ whole
      · rw [none] at spaces'
        exact absurd Blank.nil spaces'
  · rintro ⟨lead, w, blank, rfl, lead', one, spaces⟩
    have none : lead = [] := by
      apply Decidable.byContradiction
      intro led
      exact seen ⟨lead, w, blank, rfl, lead', one, spaces, .inl led⟩
    subst none
    have short : w.length ≤ 15 := by
      apply Nat.le_of_not_lt
      intro long
      exact seen ⟨[], w, blank, rfl, lead', one, spaces, .inr long⟩
    have spaces' : Blank (blank.take (15 - w.length)) := fun c inside =>
      spaces c (List.mem_of_mem_take inside)
    refine ⟨w, blank.take (15 - w.length), ?_, one, spaces'⟩
    rw [List.nil_append, List.take_append, List.take_of_length_le short]
    apply cString_eq_self
    intro c inside
    rcases List.mem_append.mp inside with here | here
    · exact (one.solid c here).1
    · exact spaces'.not_zero c here

/-! The write -/

/-- The slot table, and the devices whose removal was asked for. The notification that a removal
leads to is a later event of the driver. -/
structure NodeWorld where
  table : Platform
  removed : List (Option PciDev) := []

/-- One writer, whose text is in user memory. -/
def nodeDriver (text : List Byte) : Machine.Driver CallOp CallOp.Reply NodeWorld Empty where
  answer w op :=
    match op with
    | .inUse index => some ((w.table.devs index).inUse, w)
    | .readPdev index => some ((w.table.devs index).pdev, w)
    | .rebootLocked index =>
        let section' := pcieRebootLocked (w.table.devs index)
        some (section'.1, { w with table := w.table.setDev index section'.2 })
    | .stopAndRemove pdev => some ((), { w with removed := w.removed ++ [pdev] })
    | .kernel (.kmalloc _) => some (true, w)
    | .kernel (.copyFromUser _ _) => some (some (Vector.ofFn fun i => text.getD i.val 0), w)
    | _ => none
  interfere move _ := nomatch move

/-- What one write of the whole text at file offset 0 returns, and leaves. -/
def writeReboot (table : Platform) (index : Fin ambaPciDevMax) (text : List Byte) :
    Option (Int × NodeWorld) :=
  (nodeDriver text).eval (pcieProcRebootWrite index 0 text.length 0) { table }

/-- The slot after the write has been taken. -/
def Platform.rebooting (s : Platform) (index : Fin ambaPciDevMax) : Platform :=
  s.setDev index { s.devs index with state := .rebooting }

/-- The write is taken exactly for a text that reads as 1, and every other is refused. -/
structure NodeAccepts (table : Platform) (index : Fin ambaPciDevMax) (text : List Byte) : Prop where
  taken : ReadsAsOne text → writeReboot table index text =
    some ((text.length : Int), ⟨table.rebooting index, [(table.devs index).pdev]⟩)
  refused : ¬ ReadsAsOne text → writeReboot table index text = some (-einval, { table })

/-- A slot with a running card. -/
structure RebootReady (table : Platform) (index : Fin ambaPciDevMax) : Prop where
  used : (table.devs index).inUse = true
  attached : (table.devs index).pdev.isSome = true
  connected : (table.devs index).state = .connected

section Write

variable {table : Platform} {index : Fin ambaPciDevMax} {text : List Byte}

theorem user_text (text : List Byte) :
    (Vector.ofFn fun i : Fin text.length => text.getD i.val 0).toList = text := by
  apply List.ext_getElem
  · rw [Vector.length_toList]
  · intro i small inside
    simp

/-- The node goes by what `pcie_reboot_write_entry` makes of the text. -/
theorem writeReboot_eq (ready : RebootReady table index) (some' : 0 < text.length)
    (fits : text.length ≤ 32) :
    writeReboot table index text =
      if rebootCmd text = some 1 then
        some ((text.length : Int), ⟨table.rebooting index, [(table.devs index).pdev]⟩)
      else some (-einval, { table }) := by
  have locked : pcieRebootLocked (table.devs index) =
      (0, { table.devs index with state := .rebooting }) := by
    simp [pcieRebootLocked, Option.isNone_iff_eq_none, ready.connected,
      Option.isSome_iff_ne_none.mp ready.attached]
  unfold writeReboot pcieProcRebootWrite
  rw [if_neg (by simp), if_neg (by omega), Driver.eval_perform _ rfl, if_neg (by simp),
    Driver.eval_perform _ rfl]
  simp only [user_text]
  unfold pcieRebootWriteEntry
  rw [Driver.eval_perform _ rfl, if_neg (by simp [ready.used]),
    if_neg (by simpa [List.isEmpty_iff] using List.ne_nil_of_length_pos some')]
  by_cases one : rebootCmd text = some 1
  · rw [if_neg (by simp [one]), if_pos one, Driver.eval_perform _ rfl, locked, if_neg (by simp),
      Driver.eval_perform _ rfl, Driver.eval_perform _ rfl]
    simp [Driver.eval, Platform.rebooting]
  · rw [if_pos one, if_neg one]
    rfl

/-- For every text of 1 to 32 bytes: the node keeps to its grammar exactly when the text is neither
a numeral that it overlooks nor one that it cuts short. -/
theorem reboot_grammar_iff (table : Platform) (index : Fin ambaPciDevMax) (text : List Byte)
    (ready : RebootReady table index) (some' : 0 < text.length) (fits : text.length ≤ 32) :
    NodeAccepts table index text ↔ ¬ Overlooked text ∧ ¬ CutShort text := by
  have write := writeReboot_eq ready some' fits
  constructor
  · intro accepts
    constructor
    · intro overlooked
      obtain ⟨reads, untaken⟩ := overlooked.differs
      have taken := accepts.taken reads
      rw [write, if_neg untaken] at taken
      have returned : -einval = (text.length : Int) := congrArg (·.1) (Option.some.inj taken)
      unfold einval at returned
      omega
    · intro cut
      obtain ⟨taken, unread⟩ := cut.differs
      have refused := accepts.refused unread
      rw [write, if_pos taken] at refused
      have returned : (text.length : Int) = -einval := congrArg (·.1) (Option.some.inj refused)
      unfold einval at returned
      omega
  · rintro ⟨seen, whole⟩
    have same := rebootCmd_one_iff_reads seen whole
    constructor
    · intro reads
      rw [write, if_pos (same.mpr reads)]
    · intro unread
      rw [write, if_neg fun taken => unread (same.mp taken)]

end Write

/-- A slot table whose slot 0 has a running card. -/
def runningTable : Platform := (platformInit true).setDev 0
  { inUse := true, state := .connected, pdev := some (cardAt 1 1 ambaPciVirtioDeviceId) }

theorem runningTable_ready : RebootReady runningTable 0 := ⟨rfl, rfl, rfl⟩

/-- Nothing is overlooked in, or cut from, a short text that starts with no white space and has no
NUL. -/
theorem short_seen {s : List Byte} (first : ∀ c ∈ s.head?, isSpace c = false)
    (short : s.length < 15) (plain : (0 : Byte) ∉ s) : ¬ Overlooked s ∧ ¬ CutShort s := by
  constructor
  · rintro ⟨lead, w, blank, rfl, spaces, -, -, why⟩
    simp only [List.length_append] at short
    rcases why with led | long
    · obtain ⟨c, more, rfl⟩ := List.exists_cons_of_ne_nil led
      have space := spaces c List.mem_cons_self
      rw [first c (by simp)] at space
      exact absurd space (by decide)
    · omega
  · rintro ⟨w, blank, rest, rfl, -, -, -, ends⟩
    simp only [List.length_append] at short ends
    rcases ends with full | ⟨-, nul⟩
    · omega
    · exact plain (List.mem_append_right _ (List.mem_of_mem_head? nul))

/-- `"+01 \n"` starts the reboot. -/
theorem reboot_grammar_one : NodeAccepts runningTable 0 [43, 48, 49, 32, 10] :=
  (reboot_grammar_iff runningTable 0 [43, 48, 49, 32, 10] runningTable_ready (by decide)
    (by decide)).mpr (short_seen (by decide) (by decide) (by decide))

/-- A blank before the numeral is not skipped, and what stands after the fifteenth byte is not
read. -/
theorem reboot_grammar_broken :
    ¬ NodeAccepts runningTable 0 [32, 49] ∧
      ¬ NodeAccepts runningTable 0 ([49] ++ List.replicate 14 32 ++ [120]) := by
  constructor
  · intro accepts
    have taken := accepts.taken (by decide)
    rw [writeReboot_eq runningTable_ready (by decide) (by decide), if_neg (by decide)] at taken
    have returned : -einval = 2 := congrArg (·.1) (Option.some.inj taken)
    exact absurd returned (by decide)
  · intro accepts
    have refused := accepts.refused (by decide)
    rw [writeReboot_eq runningTable_ready (by decide) (by decide), if_pos (by decide)] at refused
    have returned : 16 = -einval := congrArg (·.1) (Option.some.inj refused)
    exact absurd returned (by decide)

end AmbaPci

import Mathlib.Data.Nat.Digits.Lemmas
import Mathlib.Data.List.TakeWhile
import AmbaPci.ByteMemory

set_option autoImplicit false

/- Texts printed from a format, and scanned again with the same format. -/
namespace TextFormat

open ByteMemory (Byte)

abbrev Text := List Byte

def text (s : String) : Text := s.toList.map fun c => BitVec.ofNat 8 c.toNat

/-! Numerals -/

def digitByte (value : Nat) : Byte :=
  if value < 10 then BitVec.ofNat 8 (48 + value) else BitVec.ofNat 8 (87 + value)

def digitValue (c : Byte) : Option Nat :=
  if 48 ≤ c.toNat ∧ c.toNat ≤ 57 then some (c.toNat - 48)
  else if 97 ≤ c.toNat ∧ c.toNat ≤ 102 then some (c.toNat - 87)
  else none

theorem digitValue_digitByte (value : Nat) (small : value < 16) :
    digitValue (digitByte value) = some value := by
  unfold digitByte digitValue
  split
  · rename_i decimal
    have byte : (BitVec.ofNat 8 (48 + value)).toNat = 48 + value := by
      rw [BitVec.toNat_ofNat]
      omega
    rw [byte, if_pos (by omega)]
    congr 1
    omega
  · have byte : (BitVec.ofNat 8 (87 + value)).toNat = 87 + value := by
      rw [BitVec.toNat_ofNat]
      omega
    rw [byte, if_neg (by omega), if_pos (by omega)]
    congr 1
    omega

/-- The digits of a number, at least one and with leading zeros up to a width. -/
def numeral (base width n : Nat) : Text :=
  let digits := (Nat.digits base n).reverse.map digitByte
  List.replicate (max width 1 - digits.length) 48 ++ digits

def readDigits (base : Nat) : Text → Nat → Option Nat
  | [], value => some value
  | c :: rest, value =>
      match digitValue c with
      | none => none
      | some digit => if digit < base then readDigits base rest (value * base + digit) else none

def readNumeral (base : Nat) (s : Text) : Option Nat :=
  if s.isEmpty then none else readDigits base s 0

variable {base : Nat}

theorem readDigits_zeros (positive : 0 < base) (count : Nat) (rest : Text) :
    readDigits base (List.replicate count 48 ++ rest) 0 = readDigits base rest 0 := by
  induction count with
  | zero => rfl
  | succ count ih =>
      have zero : digitValue 48 = some 0 := rfl
      simp only [List.replicate_succ, List.cons_append, readDigits, zero, positive, ↓reduceIte,
        Nat.zero_mul, Nat.add_zero, ih]

/-- The digits come least significant first. -/
theorem readDigits_digits (large : base ≤ 16) (digits : List Nat) (small : ∀ d ∈ digits, d < base)
    (rest : Text) (value : Nat) :
    readDigits base (digits.reverse.map digitByte ++ rest) value =
      readDigits base rest (value * base ^ digits.length + Nat.ofDigits base digits) := by
  induction digits generalizing rest with
  | nil => simp
  | cons d digits ih =>
      have here : d < base := small d List.mem_cons_self
      have read := digitValue_digitByte d (by omega)
      have before := ih (fun d' later => small d' (List.mem_cons_of_mem _ later))
        (digitByte d :: rest)
      rw [List.reverse_cons, List.map_append, List.map_singleton, List.append_assoc,
        List.singleton_append, before, readDigits, read]
      dsimp only
      rw [if_pos here]
      congr 1
      rw [Nat.ofDigits_cons, List.length_cons, Nat.pow_succ, Nat.add_mul, Nat.mul_assoc,
        Nat.mul_comm base, Nat.add_assoc, Nat.add_comm d]

theorem numeral_ne_nil (width n : Nat) : numeral base width n ≠ [] := by
  intro empty
  have short := congrArg List.length empty
  simp only [numeral, List.length_append, List.length_replicate, List.length_map,
    List.length_reverse, List.length_nil] at short
  omega

theorem readNumeral_numeral (small : 2 ≤ base) (large : base ≤ 16) (width n : Nat) :
    readNumeral base (numeral base width n) = some n := by
  have full : (numeral base width n).isEmpty = false := by
    rw [List.isEmpty_eq_false_iff]
    exact numeral_ne_nil width n
  unfold readNumeral
  rw [if_neg (by rw [full]; decide), numeral, readDigits_zeros (by omega)]
  have digits := readDigits_digits large (Nat.digits base n)
    (fun d inside => Nat.digits_lt_base (by omega) inside) [] 0
  rw [List.append_nil, Nat.ofDigits_digits, Nat.zero_mul, Nat.zero_add] at digits
  exact digits

theorem numeral_digit (large : base ≤ 16) (small : 2 ≤ base) (width n : Nat) {c : Byte}
    (inside : c ∈ numeral base width n) : (digitValue c).isSome = true := by
  rcases List.mem_append.mp inside with padding | digit
  · rw [List.eq_of_mem_replicate padding]
    rfl
  · obtain ⟨d, member, rfl⟩ := List.mem_map.mp digit
    have below := Nat.digits_lt_base (by omega) (List.mem_reverse.mp member)
    rw [digitValue_digitByte _ (by omega)]
    rfl

theorem numeral_length {limit width n : Nat} (small : 2 ≤ base) (below : n < base ^ limit)
    (positive : 0 < limit) (narrow : width ≤ limit) : (numeral base width n).length ≤ limit := by
  have digits := (Nat.digits_length_le_iff (by omega) n).mpr below
  simp only [numeral, List.length_append, List.length_replicate, List.length_map,
    List.length_reverse]
  omega

/-! Formats -/

/-- What a conversion prints: a number in a base with a least width, or a string. -/
inductive Conv
  | num (base width : Nat)
  | str

abbrev Conv.Value : Conv → Type
  | .num _ _ => Nat
  | .str => Text

def Conv.print : (conv : Conv) → conv.Value → Text
  | .num base width, n => numeral base width n
  | .str, s => s

def Conv.read : (conv : Conv) → Text → Option conv.Value
  | .num base _, s => readNumeral base s
  | .str, s => some s

/-- The printed value does not contain the byte it is told from what follows by, and reads back. -/
def Conv.Fits : (conv : Conv) → Byte → conv.Value → Prop
  | .num base _, stop, _ => 2 ≤ base ∧ base ≤ 16 ∧ digitValue stop = none
  | .str, stop, s => stop ∉ s

theorem Conv.num_fits {base width n : Nat} {stop : Byte}
    (fits : 2 ≤ base ∧ base ≤ 16 ∧ digitValue stop = none) :
    (Conv.num base width).Fits stop n := fits

theorem Conv.read_print {conv : Conv} {stop : Byte} {value : conv.Value}
    (fits : conv.Fits stop value) : conv.read (conv.print value) = some value := by
  cases conv with
  | num base width => exact readNumeral_numeral fits.1 fits.2.1 width value
  | str => rfl

theorem Conv.print_stop {conv : Conv} {stop : Byte} {value : conv.Value}
    (fits : conv.Fits stop value) : stop ∉ conv.print value := by
  cases conv with
  | num base width =>
      intro inside
      have digit := numeral_digit fits.2.1 fits.1 width value inside
      rw [fits.2.2] at digit
      cases digit
  | str => exact fits

/-- A piece of a format: fixed text, one conversion, and the fixed byte after it. -/
structure Field where
  lead : Text
  conv : Conv
  stop : Byte

abbrev Format := List Field

def Args : Format → Type
  | [] => Unit
  | field :: rest => field.conv.Value × Args rest

def print : (format : Format) → Args format → Text
  | [], _ => []
  | field :: rest, (value, values) =>
      field.lead ++ field.conv.print value ++ field.stop :: print rest values

/-- Read the values back, with what is left of the text. -/
def scan : (format : Format) → Text → Option (Args format × Text)
  | [], s => some ((), s)
  | field :: rest, s =>
      if field.lead <+: s then
        let after := s.drop field.lead.length
        match field.conv.read (after.takeWhile (· ≠ field.stop)),
            after.dropWhile (· ≠ field.stop) with
        | some value, _ :: more =>
            (scan rest more).map fun scanned => ((value, scanned.1), scanned.2)
        | _, _ => none
      else none

def Fits : (format : Format) → Args format → Prop
  | [], _ => True
  | field :: rest, (value, values) => field.conv.Fits field.stop value ∧ Fits rest values

theorem takeWhile_stop {stop : Byte} {s : Text} (absent : stop ∉ s) (rest : Text) :
    (s ++ stop :: rest).takeWhile (· ≠ stop) = s ∧
      (s ++ stop :: rest).dropWhile (· ≠ stop) = stop :: rest := by
  have all : ∀ c ∈ s, decide (c ≠ stop) = true := by
    intro c inside
    exact decide_eq_true fun same => absent (same ▸ inside)
  rw [List.takeWhile_append_of_pos all, List.dropWhile_append_of_pos all]
  simp

/-- A text is scanned back to what it was printed from, whatever follows it. -/
theorem scan_print {format : Format} {args : Args format} (fits : Fits format args)
    (rest : Text) : scan format (print format args ++ rest) = some (args, rest) := by
  induction format with
  | nil => rfl
  | cons field format ih =>
      obtain ⟨value, values⟩ := args
      have whole : print (field :: format) (value, values) ++ rest =
          field.lead ++ (field.conv.print value ++
            field.stop :: (print format values ++ rest)) := by
        simp only [print, List.append_assoc, List.cons_append]
      obtain ⟨here, there⟩ := takeWhile_stop (Conv.print_stop fits.1) (print format values ++ rest)
      rw [whole, scan, if_pos (List.prefix_append _ _), List.drop_left]
      dsimp only
      rw [here, there, Conv.read_print fits.1]
      dsimp only
      rw [ih fits.2]
      rfl

/-- Numbers that end at a byte that is no digit. -/
def Conv.Ends : Conv → Byte → Prop
  | .num base _, stop => 2 ≤ base ∧ base ≤ 16 ∧ digitValue stop = none
  | .str, _ => True

/-- What is scanned as the value of a conversion fits it. -/
theorem Conv.fits_of_read {conv : Conv} {stop : Byte} (ends : conv.Ends stop) {s : Text}
    {value : conv.Value} (read : conv.read (s.takeWhile (· ≠ stop)) = some value) :
    conv.Fits stop value := by
  cases conv with
  | num base width => exact ends
  | str =>
      have same : s.takeWhile (· ≠ stop) = value := Option.some.inj read
      intro inside
      rw [← same] at inside
      have passed := List.mem_takeWhile_imp inside
      simp at passed

theorem scan_fits {format : Format} (ends : ∀ field ∈ format, field.conv.Ends field.stop)
    {s rest : Text} {args : Args format} (scanned : scan format s = some (args, rest)) :
    Fits format args := by
  induction format generalizing s with
  | nil => trivial
  | cons field format ih =>
      obtain ⟨value, values⟩ := args
      unfold scan at scanned
      split at scanned
      · dsimp only at scanned
        split at scanned
        · rename_i value' c more read after
          obtain ⟨⟨values', rest'⟩, later, same⟩ := Option.map_eq_some_iff.mp scanned
          cases same
          exact ⟨Conv.fits_of_read (ends field List.mem_cons_self) read,
            ih (fun other member => ends other (List.mem_cons_of_mem _ member)) later⟩
        · cases scanned
      · cases scanned

/-! Lengths -/

def Conv.Within : (conv : Conv) → Nat → conv.Value → Prop
  | .num base width, limit, n => 2 ≤ base ∧ n < base ^ limit ∧ 0 < limit ∧ width ≤ limit
  | .str, limit, s => s.length ≤ limit

theorem Conv.print_length {conv : Conv} {limit : Nat} {value : conv.Value}
    (within : conv.Within limit value) : (conv.print value).length ≤ limit := by
  cases conv with
  | num base width => exact numeral_length within.1 within.2.1 within.2.2.1 within.2.2.2
  | str => exact within

/-- Every printed value has at most as many characters as its limit. -/
def Within : (format : Format) → List Nat → Args format → Prop
  | [], _, _ => True
  | _ :: _, [], _ => False
  | field :: rest, limit :: limits, (value, values) =>
      field.conv.Within limit value ∧ Within rest limits values

def room : Format → List Nat → Nat
  | field :: rest, limit :: limits => field.lead.length + limit + 1 + room rest limits
  | _, _ => 0

theorem print_length {format : Format} {limits : List Nat} {args : Args format}
    (within : Within format limits args) : (print format args).length ≤ room format limits := by
  induction format generalizing limits with
  | nil => exact Nat.zero_le _
  | cons field format ih =>
      obtain ⟨value, values⟩ := args
      cases limits with
      | nil => exact within.elim
      | cons limit limits =>
          have here := Conv.print_length within.1
          have later := ih within.2
          simp only [print, room, List.length_append, List.length_cons]
          omega

/-! Bounded printing -/

/-- `scnprintf`: what fits beside the final NUL. -/
def scnprintf (size : Nat) (s : Text) : Text := s.take (size - 1)

theorem scnprintf_fits {size : Nat} {s : Text} (small : s.length < size) :
    scnprintf size s = s := List.take_of_length_le (by omega)

end TextFormat

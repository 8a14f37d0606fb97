import Mathlib.Data.List.TakeWhile
import Mathlib.Tactic.Linarith

/-! # Decimal numbers as C spells and reads them

`printf` conversions without flags, and the `strtol` family that reads the
digits back. The readers stop at the first character they cannot use, so every
round trip below allows an arbitrary text behind the number.
-/

namespace Vpopmail.Decimal

/-- `%lu`, and `%d` of a value that is not negative. -/
def spellNat (value : Nat) : List Char := Nat.toDigits 10 value

/-- `%d`. -/
def spellInt : Int → List Char
  | .ofNat value => spellNat value
  | .negSucc value => '-' :: spellNat (value + 1)

/-- `isspace` in the C locale. -/
def isSpace (char : Char) : Bool :=
  char = ' ' || (9 ≤ char.toNat && char.toNat ≤ 13)

/-- The value of the digits at the front of a text, zero when there are none. -/
def readDigits (text : List Char) : Nat :=
  Nat.ofDigitChars 10 (text.takeWhile Char.isDigit) 0

/-- One optional sign and the digits behind it. -/
def readSigned : List Char → Int
  | '-' :: rest => -(readDigits rest : Int)
  | '+' :: rest => readDigits rest
  | text => readDigits text

def longMax : Int := 2 ^ 63 - 1

def longMin : Int := -2 ^ 63

/-- `strtol` in base ten: leading space is skipped, and a value outside `long`
is replaced by the nearest bound. -/
def strtol (text : List Char) : Int :=
  max longMin (min longMax (readSigned (text.dropWhile isSpace)))

def atol (text : List Char) : Int := strtol text

/-- The `long` cut to the 32 bits of an `int`. -/
def atoi (text : List Char) : Int := (strtol text).bmod (2 ^ 32)

/-! ## Spelled characters -/

theorem isDigit_of_mem_spellNat {value : Nat} {char : Char}
    (member : char ∈ spellNat value) : char.isDigit = true :=
  Nat.isDigit_of_mem_toDigits (by decide) (by decide) member

theorem mem_spellInt {value : Int} {char : Char}
    (member : char ∈ spellInt value) : char = '-' ∨ char.isDigit = true := by
  cases value with
  | ofNat value => exact .inr (isDigit_of_mem_spellNat member)
  | negSucc value =>
      rcases List.mem_cons.mp member with equal | member
      · exact .inl equal
      · exact .inr (isDigit_of_mem_spellNat member)

theorem not_mem_spellInt {char : Char} (notMinus : char ≠ '-')
    (notDigit : char.isDigit = false) (value : Int) : char ∉ spellInt value := by
  intro member
  rcases mem_spellInt member with equal | digit
  · exact notMinus equal
  · rw [notDigit] at digit
    cases digit

theorem spellNat_ne_nil (value : Nat) : spellNat value ≠ [] :=
  Nat.toDigits_ne_nil

theorem spellInt_ne_nil (value : Int) : spellInt value ≠ [] := by
  cases value with
  | ofNat value => exact spellNat_ne_nil value
  | negSucc value => simp [spellInt]

theorem length_spellNat_le_iff {value digits : Nat} (positive : 0 < digits) :
    (spellNat value).length ≤ digits ↔ value < 10 ^ digits :=
  Nat.length_toDigits_le_iff (by decide) positive

theorem length_spellNat_le {value digits : Nat} (positive : 0 < digits)
    (bound : value < 10 ^ digits) : (spellNat value).length ≤ digits :=
  (length_spellNat_le_iff positive).mpr bound

/-- An `int` takes at most eleven characters. -/
theorem length_spellInt_le {value : Int} (lower : -2 ^ 31 ≤ value)
    (upper : value < 2 ^ 31) : (spellInt value).length ≤ 11 := by
  cases value with
  | ofNat value =>
      have bound : value < 10 ^ 11 := by
        simp only [Int.ofNat_eq_natCast] at upper
        omega
      exact length_spellNat_le (by decide) bound
  | negSucc value =>
      have bound : value + 1 < 10 ^ 10 := by omega
      have digits := length_spellNat_le (by decide) bound
      simp only [spellInt, List.length_cons]
      omega

/-! ## Reading back -/

/-- `text` does not continue a number. -/
def Stops (text : List Char) : Prop :=
  ∀ char rest, text = char :: rest → char.isDigit = false

theorem stops_nil : Stops [] := by
  intro char rest impossible
  cases impossible

theorem stops_cons {char : Char} {rest : List Char}
    (notDigit : char.isDigit = false) : Stops (char :: rest) := by
  intro head tail equal
  cases equal
  exact notDigit

theorem takeWhile_digits_append {digits rest : List Char}
    (allDigits : ∀ char ∈ digits, char.isDigit = true) (stops : Stops rest) :
    (digits ++ rest).takeWhile Char.isDigit = digits := by
  rw [List.takeWhile_append_of_pos allDigits]
  cases rest with
  | nil => simp
  | cons char rest => simp [stops char rest rfl]

theorem readDigits_spellNat_append (value : Nat) {rest : List Char}
    (stops : Stops rest) : readDigits (spellNat value ++ rest) = value := by
  rw [readDigits, takeWhile_digits_append
    (fun _ member => isDigit_of_mem_spellNat member) stops]
  exact Nat.ofDigitChars_ten_toDigits

theorem readSigned_of_ne {char : Char} (notMinus : char ≠ '-') (notPlus : char ≠ '+')
    (rest : List Char) : readSigned (char :: rest) = readDigits (char :: rest) := by
  rw [readSigned]
  · exact fun _ equal => notMinus (List.cons.inj equal).1
  · exact fun _ equal => notPlus (List.cons.inj equal).1

theorem readSigned_of_isDigit {char : Char} {rest : List Char}
    (digit : char.isDigit = true) :
    readSigned (char :: rest) = readDigits (char :: rest) := by
  have notMinus : char ≠ '-' := by
    intro equal
    simp [equal] at digit
  have notPlus : char ≠ '+' := by
    intro equal
    simp [equal] at digit
  exact readSigned_of_ne notMinus notPlus rest

theorem exists_spellNat_eq_cons (value : Nat) :
    ∃ char rest, spellNat value = char :: rest ∧ char.isDigit = true := by
  cases spelled : spellNat value with
  | nil => exact absurd spelled (spellNat_ne_nil value)
  | cons char rest =>
      have member : char ∈ spellNat value := by
        rw [spelled]
        exact List.mem_cons_self
      exact ⟨char, rest, rfl, isDigit_of_mem_spellNat member⟩

theorem readSigned_spellInt_append (value : Int) {rest : List Char}
    (stops : Stops rest) : readSigned (spellInt value ++ rest) = value := by
  cases value with
  | ofNat value =>
      rcases exists_spellNat_eq_cons value with ⟨char, tail, spelled, digit⟩
      have read := readDigits_spellNat_append value stops
      rw [spelled] at read
      simp only [spellInt]
      rw [spelled, List.cons_append, readSigned_of_isDigit digit,
        ← List.cons_append, read]
      rfl
  | negSucc value =>
      simp only [spellInt, List.cons_append, readSigned]
      rw [readDigits_spellNat_append (value + 1) stops]
      omega

theorem not_isSpace_of_isDigit {char : Char} (digit : char.isDigit = true) :
    isSpace char = false := by
  have lower : 48 ≤ char.toNat := by
    simp only [Char.isDigit, Bool.and_eq_true, decide_eq_true_eq] at digit
    exact UInt32.le_iff_toNat_le.mp digit.1
  have notBlank : char ≠ ' ' := by
    intro equal
    simp [equal] at digit
  have aboveControl : ¬char.toNat ≤ 13 := by omega
  simp [isSpace, notBlank, aboveControl]

theorem dropWhile_isSpace_spellInt_append (value : Int) (rest : List Char) :
    (spellInt value ++ rest).dropWhile isSpace = spellInt value ++ rest := by
  cases spelled : spellInt value with
  | nil => exact absurd spelled (spellInt_ne_nil value)
  | cons char tail =>
      have member : char ∈ spellInt value := by
        rw [spelled]
        exact List.mem_cons_self
      have notSpace : isSpace char = false := by
        rcases mem_spellInt member with equal | digit
        · subst equal
          decide
        · exact not_isSpace_of_isDigit digit
      simp [notSpace]

/-- `atol` of a spelled number is that number, held inside `long`. -/
theorem atol_spellInt_append (value : Int) {rest : List Char}
    (stops : Stops rest) :
    atol (spellInt value ++ rest) = max longMin (min longMax value) := by
  rw [atol, strtol, dropWhile_isSpace_spellInt_append,
    readSigned_spellInt_append value stops]

/-- An `int` is small enough for `long`. -/
theorem atol_spellInt_toInt (word : BitVec 32) : atol (spellInt word.toInt) = word.toInt := by
  have lower : -2 ^ 31 ≤ word.toInt := BitVec.le_toInt word
  have upper : word.toInt < 2 ^ 31 := BitVec.toInt_lt
  have read := atol_spellInt_append word.toInt stops_nil
  rw [List.append_nil] at read
  rw [read]
  simp only [longMin, longMax]
  omega

theorem atoi_spellInt_append {value : Int} (lower : -2 ^ 31 ≤ value)
    (upper : value < 2 ^ 31) {rest : List Char} (stops : Stops rest) :
    atoi (spellInt value ++ rest) = value := by
  have exact : strtol (spellInt value ++ rest) = value := by
    rw [← atol, atol_spellInt_append value stops]
    simp only [longMin, longMax]
    omega
  rw [atoi, exact]
  exact Int.bmod_eq_of_le (by omega) (by omega)

theorem atoi_spellInt {value : Int} (lower : -2 ^ 31 ≤ value)
    (upper : value < 2 ^ 31) : atoi (spellInt value) = value := by
  simpa using atoi_spellInt_append lower upper stops_nil

/-! ## What stands behind a number -/

theorem takeWhile_append_cons {continues : Char → Bool} {char : Char}
    (stops : continues char = false) (text rest : List Char) :
    (text ++ char :: rest).takeWhile continues = text.takeWhile continues := by
  induction text with
  | nil => rw [List.nil_append, List.takeWhile_cons_of_neg (by rw [stops]; decide), List.takeWhile_nil]
  | cons head text induction => rw [List.cons_append, List.takeWhile_cons, List.takeWhile_cons, induction]

theorem dropWhile_append_cons {continues : Char → Bool} {char : Char}
    (stops : continues char = false) (text rest : List Char) :
    (text ++ char :: rest).dropWhile continues = text.dropWhile continues ++ char :: rest := by
  induction text with
  | nil => rw [List.nil_append, List.dropWhile_cons_of_neg (by rw [stops]; decide), List.dropWhile_nil,
      List.nil_append]
  | cons head text induction =>
      rw [List.cons_append, List.dropWhile_cons, List.dropWhile_cons, induction]
      split <;> rfl

/-- The characters that `strtol` cannot use anywhere. -/
def Foreign (char : Char) : Prop :=
  isSpace char = false ∧ char.isDigit = false ∧ char ≠ '-' ∧ char ≠ '+'

instance decidableForeign (char : Char) : Decidable (Foreign char) :=
  inferInstanceAs (Decidable (_ ∧ _))

theorem readDigits_append {rest : List Char} (stops : Stops rest) (text : List Char) :
    readDigits (text ++ rest) = readDigits text := by
  cases rest with
  | nil => rw [List.append_nil]
  | cons char rest => rw [readDigits, readDigits, takeWhile_append_cons (stops char rest rfl)]

theorem readDigits_append_cons {char : Char} (foreign : Foreign char) (text rest : List Char) :
    readDigits (text ++ char :: rest) = readDigits text :=
  readDigits_append (stops_cons foreign.2.1) text

theorem readSigned_append_cons {char : Char} (foreign : Foreign char) (text rest : List Char) :
    readSigned (text ++ char :: rest) = readSigned text := by
  have digits := readDigits_append_cons foreign
  cases text with
  | nil =>
      rw [List.nil_append, readSigned_of_ne foreign.2.2.1 foreign.2.2.2]
      exact congrArg Int.ofNat (digits [] rest)
  | cons head text =>
      by_cases minus : head = '-'
      · rw [minus, List.cons_append, readSigned, readSigned, digits]
      · by_cases plus : head = '+'
        · rw [plus, List.cons_append, readSigned, readSigned, digits]
        · rw [List.cons_append, readSigned_of_ne minus plus, readSigned_of_ne minus plus,
            ← List.cons_append, digits]

/-- `strtol` stops in front of a character that it cannot use. -/
theorem strtol_append_cons {char : Char} (foreign : Foreign char) (text rest : List Char) :
    strtol (text ++ char :: rest) = strtol text := by
  rw [strtol, strtol, dropWhile_append_cons foreign.1, readSigned_append_cons foreign]

theorem readDigits_of_digits {digits : List Char} (all : ∀ char ∈ digits, char.isDigit = true) :
    readDigits digits = Nat.ofDigitChars 10 digits 0 := by
  rw [readDigits, List.takeWhile_eq_self_iff.mpr all]

/-- Digits, which may begin with zeros. -/
theorem strtol_of_digits {digits : List Char} (nonempty : digits ≠ [])
    (all : ∀ char ∈ digits, char.isDigit = true)
    (small : Nat.ofDigitChars 10 digits 0 < 2 ^ 63) :
    strtol digits = Nat.ofDigitChars 10 digits 0 := by
  obtain ⟨char, rest, rfl⟩ := List.exists_cons_of_ne_nil nonempty
  have digit := all char List.mem_cons_self
  have start : ¬isSpace char = true := by rw [not_isSpace_of_isDigit digit]; decide
  rw [strtol, List.dropWhile_cons_of_neg start, readSigned_of_isDigit digit,
    readDigits_of_digits all]
  simp only [longMin, longMax]
  omega

/-- A 32-bit word printed with `%d` is read back by `atoi`, whatever its
signedness in the program. -/
theorem ofInt_atoi_spellInt_toInt_append (word : BitVec 32) {rest : List Char}
    (stops : Stops rest) :
    BitVec.ofInt 32 (atoi (spellInt word.toInt ++ rest)) = word := by
  have lower : -2 ^ 31 ≤ word.toInt := BitVec.le_toInt word
  have upper : word.toInt < 2 ^ 31 := BitVec.toInt_lt
  rw [atoi_spellInt_append lower upper stops, BitVec.ofInt_toInt]

theorem ofInt_atoi_spellInt_toInt (word : BitVec 32) :
    BitVec.ofInt 32 (atoi (spellInt word.toInt)) = word := by
  simpa using ofInt_atoi_spellInt_toInt_append word stops_nil

/-- A word printed with `%u`, which `atoi` brings back modulo the size of the word. -/
theorem ofInt_atoi_spellNat_toNat (word : BitVec 32) :
    BitVec.ofInt 32 (atoi (spellNat word.toNat)) = word := by
  have small : word.toNat < 2 ^ 32 := word.isLt
  have read := atol_spellInt_append (.ofNat word.toNat) stops_nil
  have value : strtol (spellNat word.toNat) = word.toNat := by
    rw [List.append_nil, atol] at read
    rw [← spellInt, read]
    simp only [longMin, longMax, Int.ofNat_eq_natCast]
    omega
  rw [atoi, value]
  apply BitVec.eq_of_toInt_eq
  rw [BitVec.toInt_ofInt, BitVec.toInt_eq_toNat_bmod]
  exact Int.bmod_bmod

end Vpopmail.Decimal

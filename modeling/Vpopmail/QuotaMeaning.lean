import Mathlib.Algebra.Order.Round
import Mathlib.Data.Rat.Floor
import Vpopmail.QuotaCanonical

/-! # What quotas denote

The quotas that administrators write: a decimal size with a unit, a number of messages, or
both in either order. `format_maildirquota` keeps what they denote.
-/

namespace Vpopmail.Maildirquota

open Text Decimal

/-- A decimal number. -/
structure Number where
  whole : List Char
  fraction : List Char
  nonempty : whole ≠ []
  digits : ∀ char ∈ whole ++ fraction, char.isDigit = true

namespace Number

def text (number : Number) : List Char :=
  number.whole ++ if number.fraction = [] then [] else '.' :: number.fraction

def value (number : Number) : ℚ :=
  Nat.ofDigitChars 10 number.whole 0 +
    Nat.ofDigitChars 10 number.fraction 0 / 10 ^ number.fraction.length

end Number

/-! ## Doubles -/

/-- A number that is the value of a double. -/
def Representable {doubles : Doubles} (value : doubles.Value → ℚ) (number : ℚ) : Prop :=
  ∃ double, value double = number

/-- `text` ends a number of `atof`. -/
def EndsNumber (text : List Char) : Prop :=
  ∀ char, text.head? = some char → char.isDigit = false ∧ char ∉ ['.', 'e', 'E', 'x', 'X']

/-- The operations are correctly rounded, so that they are exact where the result is a double. -/
structure Exact (doubles : Doubles) (value : doubles.Value → ℚ) : Prop where
  atof : ∀ (number : Number) rest, EndsNumber rest → Representable value number.value →
    value (doubles.atof (number.text ++ rest)) = number.value
  times : ∀ double (factor : Nat), Representable value (value double * (factor : ℚ)) →
    value (doubles.times double factor) = value double * factor
  minusOne : value doubles.minusOne = -1
  isMinusOne : ∀ double, doubles.isMinusOne double = true ↔ value double = -1
  print : ∀ double (whole : Nat), value double = whole → doubles.print double = spellNat whole

/-! ## Quotas -/

/-- `Size` with the letters of its unit, where everything is a double and the size in bytes is
a `long long`. -/
structure Size {doubles : Doubles} (value : doubles.Value → ℚ) where
  number : Number
  unit : List Char
  byte : List Char
  kind : List Char
  bytes : Nat
  unitKnown : unit ∈ [[], ['K'], ['k'], ['M'], ['m']]
  byteKnown : byte ∈ [[], ['B'], ['b']]
  kindKnown : kind ∈ [[], ['S'], ['s']]
  denotes : number.value *
    (if unit = ['M'] ∨ unit = ['m'] then 1024 * 1024
      else if unit = ['K'] ∨ unit = ['k'] then 1024 else 1) = bytes
  read : Representable value number.value
  scaled : Representable value (bytes : ℚ)
  small : bytes < 2 ^ 63

structure Count where
  digits : List Char
  nonempty : digits ≠ []
  allDigits : ∀ char ∈ digits, char.isDigit = true
  small : Nat.ofDigitChars 10 digits 0 < 2 ^ 63

inductive Quota {doubles : Doubles} (value : doubles.Value → ℚ)
  | size (size : Size value)
  | count (count : Count)
  | sizeCount (size : Size value) (count : Count)
  | countSize (count : Count) (size : Size value)

def Count.messages (count : Count) : Nat := Nat.ofDigitChars 10 count.digits 0

def Count.text (count : Count) : List Char := count.digits ++ ['C']

section Texts

variable {doubles : Doubles} {value : doubles.Value → ℚ}

def Size.text (size : Size value) : List Char :=
  size.number.text ++ size.unit ++ size.byte ++ size.kind

namespace Quota

def text : Quota value → List Char
  | .size limit => limit.text
  | .count limit => limit.text
  | .sizeCount limit other => limit.text ++ ',' :: other.text
  | .countSize limit other => limit.text ++ ',' :: other.text

/-- The size in bytes, if there is one. -/
def bytes : Quota value → Option Nat
  | .size limit | .sizeCount limit _ | .countSize _ limit => some limit.bytes
  | .count _ => none

/-- The number of messages, if there is one. -/
def messages : Quota value → Option Nat
  | .count limit | .sizeCount _ limit | .countSize limit _ => some limit.messages
  | .size _ => none

end Quota

end Texts

/-! ## Tokens -/

section Tokens

theorem dropSuffix_append {upper lower : Char} {text suffix : List Char}
    (known : suffix ∈ [[], [upper], [lower]])
    (plain : ∀ char, text.getLast? = some char → char ≠ upper ∧ char ≠ lower) :
    dropSuffix upper lower (text ++ suffix) = text := by
  rw [dropSuffix]
  rcases List.mem_cons.mp known with rfl | letter
  · rw [List.append_nil, if_neg]
    intro either
    obtain last | last := either
    · exact (plain upper last).1 rfl
    · exact (plain lower last).2 rfl
  · have single : suffix = [upper] ∨ suffix = [lower] := by
      simpa only [List.mem_cons, List.not_mem_nil, or_false] using letter
    rcases single with rfl | rfl
    · rw [List.getLast?_concat, if_pos (.inl rfl), List.dropLast_concat]
    · rw [List.getLast?_concat, if_pos (.inr rfl), List.dropLast_concat]

theorem Number.getLast?_text (number : Number) :
    ∃ char, number.text.getLast? = some char ∧ char.isDigit = true := by
  have last : ∀ text : List Char, text ≠ [] → (∀ char ∈ text, char.isDigit = true) →
      ∀ front : List Char, ∃ char, (front ++ text).getLast? = some char ∧
        char.isDigit = true := by
    intro text nonempty digits front
    refine ⟨text.getLast nonempty, ?_, digits _ (List.getLast_mem nonempty)⟩
    rw [List.getLast?_append_of_ne_nil _ nonempty, List.getLast?_eq_some_getLast nonempty]
  have digits := number.digits
  rw [Number.text]
  split
  · rw [List.append_nil]
    exact last number.whole number.nonempty (fun char member =>
      digits char (List.mem_append_left _ member)) []
  · next some =>
      rw [← List.singleton_append, ← List.append_assoc]
      exact last number.fraction some (fun char member =>
        digits char (List.mem_append_right _ member)) _

/-- What a text of digits and unit letters ends in. -/
def LastIn (letters text : List Char) : Prop :=
  ∀ char, text.getLast? = some char → char.isDigit = true ∨ char ∈ letters

theorem LastIn.append {letters more text suffix : List Char} (last : LastIn letters text)
    (known : ∀ char, suffix.getLast? = some char → char ∈ more) :
    LastIn (letters ++ more) (text ++ suffix) := by
  intro char equal
  rw [List.getLast?_append] at equal
  cases ends : suffix.getLast? with
  | none =>
      rw [ends, Option.none_or] at equal
      exact (last char equal).imp_right (List.mem_append_left more)
  | some other =>
      rw [ends, Option.some_or, Option.some.injEq] at equal
      exact .inr (List.mem_append_right _ (equal ▸ known other ends))

theorem LastIn.ne {letters text : List Char} (last : LastIn letters text) {other : Char}
    (notDigit : other.isDigit = false) (missing : other ∉ letters) :
    ∀ char, text.getLast? = some char → char ≠ other := by
  intro char equal same
  rw [same] at equal
  cases last other equal with
  | inl digit =>
      rw [notDigit] at digit
      cases digit
  | inr member => exact missing member

variable {doubles : Doubles} {value : doubles.Value → ℚ}

theorem Number.lastIn (number : Number) : LastIn [] number.text := by
  intro char equal
  obtain ⟨last, found, digit⟩ := number.getLast?_text
  rw [found, Option.some.injEq] at equal
  exact .inl (equal ▸ digit)

namespace Size

variable (size : Size value)

theorem lastIn_unit : LastIn ['K', 'k', 'M', 'm'] (size.number.text ++ size.unit) := by
  apply size.number.lastIn.append
  have known := size.unitKnown
  revert known
  generalize size.unit = unit
  simp only [List.mem_cons, List.not_mem_nil, or_false]
  rintro (rfl | rfl | rfl | rfl | rfl) <;> simp

theorem lastIn_byte :
    LastIn ['K', 'k', 'M', 'm', 'B', 'b'] (size.number.text ++ size.unit ++ size.byte) := by
  apply size.lastIn_unit.append
  have known := size.byteKnown
  revert known
  generalize size.byte = byte
  simp only [List.mem_cons, List.not_mem_nil, or_false]
  rintro (rfl | rfl | rfl) <;> simp

theorem lastIn_text : LastIn ['K', 'k', 'M', 'm', 'B', 'b', 'S', 's'] size.text := by
  apply size.lastIn_byte.append
  have known := size.kindKnown
  revert known
  generalize size.kind = kind
  simp only [List.mem_cons, List.not_mem_nil, or_false]
  rintro (rfl | rfl | rfl) <;> simp

/-- Stripping leaves the number and the unit. -/
theorem dropSuffix_text :
    dropSuffix 'B' 'b' (dropSuffix 'S' 's' size.text) = size.number.text ++ size.unit := by
  have byte := size.lastIn_byte
  have unit := size.lastIn_unit
  rw [text, dropSuffix_append size.kindKnown, dropSuffix_append size.byteKnown]
  · exact fun char last => ⟨unit.ne rfl (by decide) char last, unit.ne rfl (by decide) char last⟩
  · exact fun char last => ⟨byte.ne rfl (by decide) char last, byte.ne rfl (by decide) char last⟩

theorem value_atof (precise : Exact doubles value) :
    value (doubles.atof (size.number.text ++ size.unit)) = size.number.value := by
  apply precise.atof size.number _ _ size.read
  have known := size.unitKnown
  revert known
  generalize size.unit = unit
  simp only [List.mem_cons, List.not_mem_nil, or_false]
  rintro (rfl | rfl | rfl | rfl | rfl) char last <;> cases last <;> decide

/-- The number that the unit multiplies. -/
theorem value_times (precise : Exact doubles value) {double : doubles.Value}
    (read : value double = size.number.value) {factor : Nat}
    (unit : size.number.value * (factor : ℚ) = size.bytes) :
    value (doubles.times double factor) = size.bytes := by
  rw [precise.times double factor, read, unit]
  rw [read, unit]
  exact size.scaled

/-- A token of a size sets the size to its bytes. -/
theorem read_text (precise : Exact doubles value) (limits : QuotaLimits doubles) :
    ∃ double, limits.read size.text = { limits with size := double } ∧
      value double = size.bytes := by
  have notCount : size.text.getLast? ≠ some 'C' := fun equal =>
    size.lastIn_text.ne (by decide) (by decide) 'C' equal rfl
  have number := size.value_atof precise
  have denotes := size.denotes
  have known := size.unitKnown
  simp only [List.mem_cons, List.not_mem_nil, or_false] at known
  rw [QuotaLimits.read, if_neg notCount, size.dropSuffix_text]
  refine ⟨_, rfl, ?_⟩
  rcases known with unit | unit | unit | unit | unit
  · have digit := size.number.lastIn
    rw [unit, List.append_nil] at number ⊢
    rw [unit] at denotes
    have plain : ∀ letter : Char, letter.isDigit = false →
        size.number.text.getLast? ≠ some letter := fun letter notDigit equal =>
      digit.ne notDigit List.not_mem_nil letter equal rfl
    simp only [plain _ (rfl : 'M'.isDigit = false), plain _ (rfl : 'm'.isDigit = false),
      plain _ (rfl : 'K'.isDigit = false), plain _ (rfl : 'k'.isDigit = false)]
    simpa [number] using denotes
  · rw [unit] at number denotes ⊢
    simpa using size.value_times precise number (by simpa using denotes)
  · rw [unit] at number denotes ⊢
    simpa using size.value_times precise number (by simpa using denotes)
  · rw [unit] at number denotes ⊢
    simpa using size.value_times precise number (by norm_num at denotes ⊢; exact denotes)
  · rw [unit] at number denotes ⊢
    simpa using size.value_times precise number (by norm_num at denotes ⊢; exact denotes)

end Size

/-- A token of messages sets the count. -/
theorem Count.read_text (count : Count) (limits : QuotaLimits doubles) :
    limits.read count.text = { limits with count := count.messages } := by
  have read : atol count.text = count.messages := by
    rw [text, atol, strtol_append_cons (by decide), messages]
    exact strtol_of_digits count.nonempty count.allDigits count.small
  have last : count.text.getLast? = some 'C' := List.getLast?_concat
  rw [QuotaLimits.read, if_pos last, read]

theorem ne_of_isDigit {char : Char} (digit : char.isDigit = true) {other : Char}
    (notDigit : other.isDigit = false) : char ≠ other := by
  intro equal
  rw [equal, notDigit] at digit
  cases digit

theorem free_of_digits {digits : List Char} (all : ∀ char ∈ digits, char.isDigit = true) :
    Free ',' digits :=
  fun member => ne_of_isDigit (all ',' member) rfl rfl

theorem Number.free_text (number : Number) : Free ',' number.text := by
  have digits := free_of_digits number.digits
  rw [free_append] at digits
  rw [text, free_append]
  refine ⟨digits.1, ?_⟩
  split
  · exact free_nil ','
  · rw [free_cons]
    exact ⟨by decide, digits.2⟩

theorem Count.free_text (count : Count) : Free ',' count.text := by
  rw [text, free_append]
  exact ⟨free_of_digits count.allDigits, by decide⟩

theorem Size.free_text (size : Size value) : Free ',' size.text := by
  have unit : ∀ letters ∈ [[], ['K'], ['k'], ['M'], ['m']], Free ',' letters := by decide
  have byte : ∀ letters ∈ [[], ['B'], ['b']], Free ',' letters := by decide
  have kind : ∀ letters ∈ [[], ['S'], ['s']], Free ',' letters := by decide
  rw [text, free_append, free_append, free_append]
  exact ⟨⟨⟨size.number.free_text, unit _ size.unitKnown⟩, byte _ size.byteKnown⟩,
    kind _ size.kindKnown⟩

/-- A text that begins with a digit. -/
def Begins (text : List Char) : Prop :=
  ∃ char rest, text = char :: rest ∧ char.isDigit = true

theorem begins_append {digits : List Char} (nonempty : digits ≠ [])
    (all : ∀ char ∈ digits, char.isDigit = true) (rest : List Char) : Begins (digits ++ rest) := by
  obtain ⟨char, tail, rfl⟩ := List.exists_cons_of_ne_nil nonempty
  exact ⟨char, tail ++ rest, rfl, all char List.mem_cons_self⟩

theorem Count.begins_text (count : Count) : Begins count.text :=
  begins_append count.nonempty count.allDigits _

theorem Size.begins_text (size : Size value) : Begins size.text := by
  rw [text, Number.text, List.append_assoc, List.append_assoc, List.append_assoc]
  exact begins_append size.number.nonempty
    (fun char member => size.number.digits char (List.mem_append_left _ member)) _

theorem strtokRounds_single {token : List Char} (nonempty : token ≠ []) (free : Free ',' token)
    (rounds : Nat) : strtokRounds (fun char => char = ',') (rounds + 1) token = [token] := by
  have plain : ∀ char ∈ token, (decide (char = ',')) = false := by
    intro char member
    exact decide_eq_false fun equal => free (equal ▸ member)
  have none : strtokRounds (fun char => char = ',') rounds [] = [] := by
    cases rounds <;> rfl
  rw [strtokRounds, strtok_token nonempty plain]
  simp only [none]

theorem strtokRounds_pair {first second : List Char} (firstNonempty : first ≠ [])
    (secondNonempty : second ≠ []) (firstFree : Free ',' first) (secondFree : Free ',' second)
    (rounds : Nat) : strtokRounds (fun char => char = ',') (rounds + 2) (first ++ ',' :: second) =
      [first, second] := by
  obtain ⟨head, token, rfl⟩ := List.exists_cons_of_ne_nil firstNonempty
  rw [free_cons] at firstFree
  have plain : ∀ char ∈ token, (decide (char = ',')) = false := by
    intro char member
    exact decide_eq_false fun equal => firstFree.2 (equal ▸ member)
  have found := strtok_token_append (decide_eq_false (Ne.symm firstFree.1)) plain
    (decide_eq_true rfl) second
  rw [strtokRounds, found]
  simp only [strtokRounds_single secondNonempty secondFree]

theorem Begins.ne_nil {text : List Char} (begins : Begins text) : text ≠ [] := by
  obtain ⟨char, rest, rfl, _⟩ := begins
  exact List.cons_ne_nil char rest

end Tokens

/-! ## Whole quotas -/

section Whole

variable {doubles : Doubles} {value : doubles.Value → ℚ}

/-- The limits are those of a size in bytes and of a number of messages. -/
structure Denotes (value : doubles.Value → ℚ) (limits : QuotaLimits doubles)
    (bytes messages : Option Nat) : Prop where
  size : value limits.size = match bytes with
    | none => -1
    | some bytes => (bytes : ℚ)
  count : limits.count = match messages with
    | none => -1
    | some messages => (messages : Int)

theorem spell_eq (precise : Exact doubles value) {limits : QuotaLimits doubles}
    {bytes messages : Option Nat} (denotes : Denotes value limits bytes messages)
    (small : ∀ count, messages = some count → count < 2 ^ 63) :
    limits.spell = canonicalText bytes messages := by
  have size := denotes.size
  have count := denotes.count
  have unlimited : doubles.isMinusOne limits.size = true ↔ bytes = none := by
    rw [precise.isMinusOne, size]
    cases bytes with
    | none => exact iff_of_true rfl rfl
    | some bytes =>
        refine iff_of_false ?_ (Option.some_ne_none bytes)
        have positive : (0 : ℚ) ≤ bytes := Nat.cast_nonneg bytes
        intro equal
        simp only at equal
        linarith
  cases messages with
  | none =>
      rw [QuotaLimits.spell, if_pos count]
      cases bytes with
      | none => exact if_pos (unlimited.mpr rfl)
      | some bytes =>
          rw [if_neg fun is => Option.some_ne_none bytes (unlimited.mp is),
            precise.print limits.size bytes size]
          rfl
  | some messages =>
      have notMinus : ¬limits.count = -1 := by
        rw [count]
        simp only
        omega
      have below := small messages rfl
      have spelled : (limits.count % 2 ^ 64).toNat = messages := by
        rw [count]
        simp only
        omega
      rw [QuotaLimits.spell, if_neg notMinus, spelled]
      cases bytes with
      | none => exact if_pos (unlimited.mpr rfl)
      | some bytes =>
          rw [if_neg fun is => Option.some_ne_none bytes (unlimited.mp is),
            precise.print limits.size bytes size]
          rfl

theorem length_canonicalText_lt {size count : Option Nat}
    (sizeSmall : ∀ value, size = some value → value < 2 ^ 63)
    (countSmall : ∀ value, count = some value → value < 2 ^ 63) :
    (canonicalText size count).length < tempquotaSize := by
  have digits : ∀ {number : Nat}, number < 2 ^ 63 → (spellNat number).length ≤ 19 := by
    intro number small
    exact length_spellNat_le (by decide) (Nat.lt_trans small (by decide))
  cases size with
  | none =>
      cases count with
      | none => decide
      | some count =>
          have length := digits (countSmall count rfl)
          rw [canonicalText, List.length_append, List.length_singleton, tempquotaSize]
          omega
  | some size =>
      have length := digits (sizeSmall size rfl)
      cases count with
      | none =>
          rw [canonicalText, List.length_append, List.length_singleton, tempquotaSize]
          omega
      | some count =>
          have other := digits (countSmall count rfl)
          rw [canonicalText, List.length_append, List.length_append, List.length_append,
            List.length_singleton, List.length_cons, List.length_singleton, tempquotaSize]
          omega

/-- A whole number as it is spelled. -/
def Number.ofNat (whole : Nat) : Number where
  whole := spellNat whole
  fraction := []
  nonempty := spellNat_ne_nil whole
  digits := by
    intro char member
    rw [List.append_nil] at member
    exact isDigit_of_mem_spellNat member

theorem Number.text_ofNat (whole : Nat) : (Number.ofNat whole).text = spellNat whole :=
  List.append_nil _

theorem Number.value_ofNat (whole : Nat) : (Number.ofNat whole).value = whole := by
  have read : Nat.ofDigitChars 10 (spellNat whole) 0 = whole := Nat.ofDigitChars_ten_toDigits
  rw [Number.value, ofNat, read]
  simp

def Size.canonical (size : Size value) : Size value where
  number := Number.ofNat size.bytes
  unit := []
  byte := []
  kind := ['S']
  bytes := size.bytes
  unitKnown := by decide
  byteKnown := by decide
  kindKnown := by decide
  denotes := by
    rw [Number.value_ofNat]
    simp
  read := by
    rw [Number.value_ofNat]
    exact size.scaled
  scaled := size.scaled
  small := size.small

theorem Size.text_canonical (size : Size value) :
    size.canonical.text = spellNat size.bytes ++ ['S'] := by
  rw [text, canonical, Number.text_ofNat, List.append_nil, List.append_nil]

def Count.canonical (count : Count) : Count where
  digits := spellNat count.messages
  nonempty := spellNat_ne_nil _
  allDigits := fun _ member => isDigit_of_mem_spellNat member
  small := by
    have read : Nat.ofDigitChars 10 (spellNat count.messages) 0 = count.messages :=
      Nat.ofDigitChars_ten_toDigits
    rw [read]
    exact count.small

theorem Count.messages_canonical (count : Count) : count.canonical.messages = count.messages :=
  Nat.ofDigitChars_ten_toDigits

namespace Quota

/-- The canonical form is a quota itself. -/
def canonical : Quota value → Quota value
  | .size limit => .size limit.canonical
  | .count limit => .count limit.canonical
  | .sizeCount limit other | .countSize other limit => .sizeCount limit.canonical other.canonical

theorem text_canonical (quota : Quota value) :
    quota.canonical.text = canonicalText quota.bytes quota.messages := by
  cases quota with
  | size limit => exact limit.text_canonical
  | count limit => rfl
  | sizeCount limit other | countSize other limit =>
      rw [canonical, text, limit.text_canonical, List.append_assoc]
      rw [bytes, messages, canonicalText, List.append_assoc, List.append_assoc]
      rfl

theorem bytes_canonical (quota : Quota value) : quota.canonical.bytes = quota.bytes := by
  cases quota <;> rfl

theorem messages_canonical (quota : Quota value) : quota.canonical.messages = quota.messages := by
  cases quota with
  | size limit => rfl
  | count limit => exact congrArg some limit.messages_canonical
  | sizeCount limit other | countSize other limit =>
      exact congrArg some other.messages_canonical

theorem messages_lt (quota : Quota value) :
    ∀ count, quota.messages = some count → count < 2 ^ 63 := by
  intro count equal
  cases quota with
  | size limit => cases equal
  | count limit =>
      cases equal
      exact limit.small
  | sizeCount limit other =>
      cases equal
      exact other.small
  | countSize limit other =>
      cases equal
      exact limit.small

theorem bytes_lt (quota : Quota value) : ∀ size, quota.bytes = some size → size < 2 ^ 63 := by
  intro size equal
  cases quota with
  | size limit =>
      cases equal
      exact limit.small
  | count limit => cases equal
  | sizeCount limit other =>
      cases equal
      exact limit.small
  | countSize limit other =>
      cases equal
      exact other.small

theorem limited (quota : Quota value) : quota.bytes ≠ none ∨ quota.messages ≠ none := by
  cases quota with
  | size limit => exact .inl (Option.some_ne_none _)
  | count limit => exact .inr (Option.some_ne_none _)
  | sizeCount limit other => exact .inl (Option.some_ne_none _)
  | countSize limit other => exact .inl (Option.some_ne_none _)

theorem begins_text (quota : Quota value) : Begins quota.text := by
  have longer : ∀ {text : List Char}, Begins text → ∀ rest, Begins (text ++ rest) := by
    intro text begins rest
    obtain ⟨char, tail, rfl, digit⟩ := begins
    exact ⟨char, tail ++ rest, rfl, digit⟩
  cases quota with
  | size limit => exact limit.begins_text
  | count limit => exact limit.begins_text
  | sizeCount limit other => exact longer limit.begins_text _
  | countSize limit other => exact longer limit.begins_text _

/-- The tokens set the limits that the quota denotes. -/
theorem denotes_tokens (precise : Exact doubles value) (quota : Quota value) :
    Denotes value ((strtokRounds (fun char => char = ',') quota.text.length quota.text).foldl
      QuotaLimits.read ⟨doubles.minusOne, -1⟩) quota.bytes quota.messages := by
  have single : ∀ {token : List Char}, Begins token → Free ',' token →
      strtokRounds (fun char => char = ',') token.length token = [token] := by
    intro token begins free
    have positive := List.length_pos_iff.mpr begins.ne_nil
    obtain ⟨rounds, equal⟩ := Nat.exists_eq_succ_of_ne_zero (Nat.ne_of_gt positive)
    rw [equal]
    exact strtokRounds_single begins.ne_nil free rounds
  have pair : ∀ {first second : List Char}, Begins first → Begins second → Free ',' first →
      Free ',' second → strtokRounds (fun char => char = ',') (first ++ ',' :: second).length
        (first ++ ',' :: second) = [first, second] := by
    intro first second firstBegins secondBegins firstFree secondFree
    have positive := List.length_pos_iff.mpr secondBegins.ne_nil
    obtain ⟨rounds, equal⟩ : ∃ rounds, (first ++ ',' :: second).length = rounds + 2 :=
      ⟨first.length + second.length - 1, by rw [List.length_append, List.length_cons]; omega⟩
    rw [equal]
    exact strtokRounds_pair firstBegins.ne_nil secondBegins.ne_nil firstFree secondFree rounds
  cases quota with
  | size limit =>
      obtain ⟨double, read, bytes⟩ := limit.read_text precise ⟨doubles.minusOne, -1⟩
      rw [text, single limit.begins_text limit.free_text, List.foldl_cons, read]
      exact ⟨bytes, rfl⟩
  | count limit =>
      rw [text, single limit.begins_text limit.free_text, List.foldl_cons, limit.read_text]
      exact ⟨precise.minusOne, rfl⟩
  | sizeCount limit other =>
      obtain ⟨double, read, bytes⟩ := limit.read_text precise ⟨doubles.minusOne, -1⟩
      rw [text, pair limit.begins_text other.begins_text limit.free_text other.free_text,
        List.foldl_cons, read, List.foldl_cons, other.read_text]
      exact ⟨bytes, rfl⟩
  | countSize limit other =>
      obtain ⟨double, read, bytes⟩ := other.read_text precise ⟨doubles.minusOne, limit.messages⟩
      rw [text, pair limit.begins_text other.begins_text limit.free_text other.free_text,
        List.foldl_cons, limit.read_text, List.foldl_cons, read]
      exact ⟨bytes, rfl⟩

/-- The canonical form, of a text that the buffer does not cut. -/
theorem formatMaildirquota_text (precise : Exact doubles value) (quota : Quota value)
    (short : quota.text.length < tempquotaSize) :
    formatMaildirquota doubles quota.text =
      .ok (canonicalText quota.bytes quota.messages) := by
  obtain ⟨char, rest, begins, digit⟩ := quota.begins_text
  have limited : quota.text ≠ "NOQUOTA".toList := by
    rw [begins]
    intro equal
    rw [(List.cons.inj equal).1] at digit
    exact Bool.noConfusion digit
  have whole : quota.text.take (tempquotaSize - 1) = quota.text :=
    List.take_of_length_le (Nat.le_sub_one_of_lt short)
  have spelled := spell_eq precise (quota.denotes_tokens precise) quota.messages_lt
  rw [formatMaildirquota, if_neg limited, whole]
  simp only
  rw [spelled, if_pos]
  exact length_canonicalText_lt quota.bytes_lt quota.messages_lt

end Quota

/-- The canonical form keeps the limits, and is what it is brought into again. -/
theorem formatMaildirquota_meaning (precise : Exact doubles value) (quota : Quota value)
    (short : quota.text.length < tempquotaSize) :
    ∃ canonical, formatMaildirquota doubles quota.text = .ok canonical ∧
      formatMaildirquota doubles canonical = .ok canonical ∧
      quotaMtos canonical = .ok (BitVec.ofNat 64 (quota.bytes.getD 0),
        BitVec.ofNat 64 (quota.messages.getD 0)) := by
  refine ⟨_, quota.formatMaildirquota_text precise short, ?_, ?_⟩
  · have fits : quota.canonical.text.length < tempquotaSize := by
      rw [quota.text_canonical]
      exact length_canonicalText_lt quota.bytes_lt quota.messages_lt
    have again := quota.canonical.formatMaildirquota_text precise fits
    rwa [quota.text_canonical, quota.bytes_canonical, quota.messages_canonical] at again
  · rw [quotaMtos_canonicalText quota.limited, limitWord_of_lt quota.bytes_lt,
      limitWord_of_lt quota.messages_lt]

end Whole

/-! ## Rational numbers -/

/-- The unsigned decimal number at the front of a text. -/
def readDecimal (text : List Char) : ℚ :=
  match text.dropWhile Char.isDigit with
  | '.' :: rest => readDigits text +
      readDigits rest / 10 ^ (rest.takeWhile Char.isDigit).length
  | _ => readDigits text

/-- The operations without rounding. -/
abbrev rationals : Doubles where
  Value := ℚ
  minusOne := -1
  atof := readDecimal
  times := fun value factor => value * factor
  isMinusOne := fun value => value = -1
  print := fun value => spellInt (round value)

theorem dropWhile_digits_append {digits rest : List Char}
    (all : ∀ char ∈ digits, char.isDigit = true) (stops : Stops rest) :
    (digits ++ rest).dropWhile Char.isDigit = rest := by
  rw [List.dropWhile_append_of_pos all]
  cases rest with
  | nil => rfl
  | cons char rest => rw [List.dropWhile_cons_of_neg (by rw [stops char rest rfl]; decide)]

theorem readDecimal_text (number : Number) {rest : List Char} (ends : EndsNumber rest) :
    readDecimal (number.text ++ rest) = number.value := by
  have digits := List.forall_mem_append.mp number.digits
  have stops : Stops rest := by
    intro char tail equal
    exact (ends char (by rw [equal]; rfl)).1
  have read : ∀ {text behind : List Char}, (∀ char ∈ text, char.isDigit = true) →
      Stops behind → readDigits (text ++ behind) = Nat.ofDigitChars 10 text 0 := by
    intro text behind all stops
    rw [readDigits, takeWhile_digits_append all stops]
  rw [Number.text, Number.value, readDecimal]
  by_cases whole : number.fraction = []
  · rw [if_pos whole, List.append_nil, dropWhile_digits_append digits.1 stops, whole,
      read digits.1 stops]
    split
    · exact absurd List.mem_cons_self (ends '.' rfl).2
    · simp [Nat.ofDigitChars]
  · have point : Stops ('.' :: (number.fraction ++ rest)) := stops_cons rfl
    rw [if_neg whole, List.append_assoc, List.cons_append, dropWhile_digits_append digits.1 point,
      read digits.1 point]
    simp only
    rw [read digits.2 stops, takeWhile_digits_append digits.2 stops]

theorem exact_rationals : Exact rationals (fun value : ℚ => value) where
  atof := fun number _ ends _ => readDecimal_text number ends
  times := fun _ _ _ => rfl
  minusOne := rfl
  isMinusOne := by
    intro double
    exact decide_eq_true_iff
  print := by
    intro double whole equal
    change double = (whole : ℚ) at equal
    rw [equal]
    exact congrArg spellInt (round_natCast whole)

/-- `1.5MB`. -/
def megabytes : Size (fun value : rationals.Value => (value : ℚ)) where
  number := ⟨['1'], ['5'], by decide, List.all_eq_true.mp rfl⟩
  unit := ['M']
  byte := ['B']
  kind := []
  bytes := 1572864
  unitKnown := by decide
  byteKnown := by decide
  kindKnown := by decide
  denotes := by
    have digits : Nat.ofDigitChars 10 ['1'] 0 = 1 ∧ Nat.ofDigitChars 10 ['5'] 0 = 5 := by decide
    rw [if_pos (.inl rfl), Number.value, digits.1, digits.2]
    norm_num
  read := ⟨_, rfl⟩
  scaled := ⟨_, rfl⟩
  small := by decide

theorem formatMaildirquota_megabytes :
    ∃ canonical, formatMaildirquota rationals ['1', '.', '5', 'M', 'B'] = .ok canonical ∧
      formatMaildirquota rationals canonical = .ok canonical ∧
      quotaMtos canonical = .ok (BitVec.ofNat 64 1572864, BitVec.ofNat 64 0) :=
  formatMaildirquota_meaning exact_rationals (.size megabytes) (by decide)

/-- One message, behind 127 zeros. -/
def padded : Quota (fun value : rationals.Value => (value : ℚ)) :=
  .count {
    digits := List.replicate 127 '0' ++ ['1']
    nonempty := by decide
    allDigits := List.all_eq_true.mp (by decide +kernel)
    small := by decide +kernel }

/-- What is left of it in the buffer is a size. -/
def zeros : Quota (fun value : rationals.Value => (value : ℚ)) :=
  .size {
    number := ⟨List.replicate 127 '0', [], by decide, List.all_eq_true.mp (by decide +kernel)⟩
    unit := []
    byte := []
    kind := []
    bytes := 0
    unitKnown := by decide
    byteKnown := by decide
    kindKnown := by decide
    denotes := by
      have zero : Nat.ofDigitChars 10 (List.replicate 127 '0') 0 = 0 := by decide +kernel
      rw [Number.value, zero]
      simp [Nat.ofDigitChars]
    read := ⟨_, rfl⟩
    scaled := ⟨_, rfl⟩
    small := by decide }

/-- A longer quota is cut in the buffer, and loses what it denotes. -/
theorem formatMaildirquota_cut :
    ¬∀ (doubles : Doubles) (value : doubles.Value → ℚ), Exact doubles value →
      ∀ quota : Quota value, ∃ canonical, formatMaildirquota doubles quota.text = .ok canonical ∧
        formatMaildirquota doubles canonical = .ok canonical ∧
        quotaMtos canonical = .ok (BitVec.ofNat 64 (quota.bytes.getD 0),
          BitVec.ofNat 64 (quota.messages.getD 0)) := by
  intro keeps
  obtain ⟨canonical, formatted, _, read⟩ := keeps rationals _ exact_rationals padded
  have size := zeros.formatMaildirquota_text exact_rationals (by decide +kernel)
  have same : padded.text.take (tempquotaSize - 1) = zeros.text.take (tempquotaSize - 1) := by
    decide +kernel
  have paddedLimited : padded.text ≠ "NOQUOTA".toList := by decide +kernel
  have zerosLimited : zeros.text ≠ "NOQUOTA".toList := by decide +kernel
  rw [formatMaildirquota, if_neg zerosLimited, ← same] at size
  rw [formatMaildirquota, if_neg paddedLimited, size, Except.ok.injEq] at formatted
  rw [← formatted, quotaMtos_canonicalText zeros.limited] at read
  have counted := congrArg Prod.snd (Except.ok.inj read)
  revert counted
  decide +kernel

end Vpopmail.Maildirquota

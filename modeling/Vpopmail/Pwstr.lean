import Vpopmail.Foundation.Binary64

/-! # Password strength

`pw_strength` compares the shares of the character sets with the values of the rules. Its
second range starts at the end of the first one, so that the characters between the letters
are counted as lower case, and a share is rounded before it is compared.
-/

namespace Vpopmail.Pwstr

open Binary64

/-! ## Rules -/

/-- A value of a `double`. -/
inductive Double
  | finite (value : ℚ)
  | infinite (negative : Bool)
  | nan
  deriving DecidableEq

namespace Double

def lt : Double → Double → Bool
  | finite left, finite right => left < right
  | finite _, infinite negative => !negative
  | infinite negative, finite _ => negative
  | infinite left, infinite right => left && !right
  | _, _ => false

def eq : Double → Double → Bool
  | nan, nan => false
  | left, right => left = right

def le (left right : Double) : Bool := left.lt right || left.eq right

end Double

/-- The `RULE_T_` numbers. -/
inductive Test
  | none
  | less
  | lessEqual
  | equal
  | greater
  | greaterEqual
  deriving DecidableEq

/-- `rule_t`. A value from `strtod` is a double. -/
structure Rule where
  test : Test
  value : Double
  loaded : ∀ number, value = .finite number → IsDouble number

structure Rules where
  alpha : Rule
  alphadelta : Rule
  numeric : Rule
  other : Rule
  length : Rule

/-- `rule_is_true`. -/
def ruleIsTrue (r : Rule) (value : Double) : Bool :=
  match r.test with
  | .less => value.lt r.value
  | .lessEqual => value.le r.value
  | .equal => value.eq r.value
  | .greater => r.value.lt value
  | .greaterEqual => r.value.le value
  | .none => true

/-! ## The check -/

/-- The counters, which are doubles and count exactly up to 2 ^ 53. -/
structure Counts where
  nUpper : Nat
  nLower : Nat
  nNumeric : Nat
  nOther : Nat
  nAlpha : Nat
  deriving DecidableEq

def Counts.zero : Counts := ⟨0, 0, 0, 0, 0⟩

/-- A round of the loop that counts. -/
def countChar (counts : Counts) (p : Char) : Counts :=
  if 65 ≤ p.toNat ∧ p.toNat ≤ 90 then
    { counts with nUpper := counts.nUpper + 1, nAlpha := counts.nAlpha + 1 }
  else if 90 ≤ p.toNat ∧ p.toNat ≤ 122 then
    { counts with nLower := counts.nLower + 1, nAlpha := counts.nAlpha + 1 }
  else if '0'.toNat ≤ p.toNat ∧ p.toNat ≤ '9'.toNat then
    { counts with nNumeric := counts.nNumeric + 1 }
  else { counts with nOther := counts.nOther + 1 }

/-- A quotient of doubles from zero on. -/
def divide (left right : ℚ) : Double :=
  if right = 0 then if left = 0 then .nan else .infinite false
  else .finite (Binary64.round (left / right))

/-- `pw_strength`, after the rules have been loaded. -/
def pwStrength (rules : Rules) (password : Option (List Char)) : Int :=
  match password with
  | none => -69
  | some password =>
      let counts := password.foldl countChar .zero
      let len : ℚ := password.length
      if !ruleIsTrue rules.length (.finite len) then -70
      else
        let difference : ℚ := counts.nUpper - counts.nLower
        let alphadelta := divide (if difference < 0 then -difference else difference) counts.nAlpha
        if !ruleIsTrue rules.alpha (divide counts.nAlpha len) then -71
        else if !ruleIsTrue rules.numeric (divide counts.nNumeric len) then -72
        else if !ruleIsTrue rules.other (divide counts.nOther len) then -73
        else if !ruleIsTrue rules.alphadelta alphadelta then -74
        else 1

/-! ## Exact shares -/

inductive CharClass
  | upper
  | lower
  | numeric
  | other
  deriving DecidableEq

/-- The class of a character. -/
def classOf (p : Char) : CharClass :=
  if 'A'.toNat ≤ p.toNat ∧ p.toNat ≤ 'Z'.toNat then .upper
  else if 'a'.toNat ≤ p.toNat ∧ p.toNat ≤ 'z'.toNat then .lower
  else if '0'.toNat ≤ p.toNat ∧ p.toNat ≤ '9'.toNat then .numeric
  else .other

def countOf (charClass : CharClass) (password : List Char) : Nat :=
  password.countP fun p => classOf p = charClass

/-- The letters of a password. -/
def letters (password : List Char) : Nat := countOf .upper password + countOf .lower password

def alphaRatio (password : List Char) : ℚ := letters password / password.length

def numericRatio (password : List Char) : ℚ := countOf .numeric password / password.length

def otherRatio (password : List Char) : ℚ := countOf .other password / password.length

/-- The imbalance of the upper and the lower case. -/
def deltaRatio (password : List Char) : ℚ :=
  |(countOf .upper password : ℚ) - countOf .lower password| / letters password

/-- The verdict on the exact numbers. -/
def exactStrength (rules : Rules) (password : List Char) : Int :=
  if !ruleIsTrue rules.length (.finite password.length) then -70
  else if !ruleIsTrue rules.alpha (.finite (alphaRatio password)) then -71
  else if !ruleIsTrue rules.numeric (.finite (numericRatio password)) then -72
  else if !ruleIsTrue rules.other (.finite (otherRatio password)) then -73
  else if !ruleIsTrue rules.alphadelta (.finite (deltaRatio password)) then -74
  else 1

/-! ## Counting -/

/-- The characters between the upper and the lower case. -/
def Between (p : Char) : Prop := 91 ≤ p.toNat ∧ p.toNat ≤ 96

instance decidableBetween (p : Char) : Decidable (Between p) :=
  inferInstanceAs (Decidable (_ ∧ _))

def betweenOf (password : List Char) : Nat := password.countP fun p => Between p

/-- The classes by the ranges of the loop. -/
theorem classOf_cases (p : Char) :
    (65 ≤ p.toNat ∧ p.toNat ≤ 90 ∧ classOf p = .upper) ∨
    (97 ≤ p.toNat ∧ p.toNat ≤ 122 ∧ classOf p = .lower) ∨
    (48 ≤ p.toNat ∧ p.toNat ≤ 57 ∧ classOf p = .numeric) ∨
    (Between p ∧ classOf p = .other) ∨
    (¬(65 ≤ p.toNat ∧ p.toNat ≤ 122) ∧ ¬(48 ≤ p.toNat ∧ p.toNat ≤ 57) ∧ classOf p = .other) := by
  simp only [classOf, Between, Char.reduceToNat]
  split_ifs <;> simp <;> omega

/-- What one round does to the counters, by the class of the character. -/
theorem countChar_eq (counts : Counts) (p : Char) :
    (countChar counts p).nUpper = counts.nUpper + (if classOf p = .upper then 1 else 0) ∧
    (countChar counts p).nLower =
      counts.nLower + (if classOf p = .lower then 1 else 0) + (if Between p then 1 else 0) ∧
    (countChar counts p).nNumeric = counts.nNumeric + (if classOf p = .numeric then 1 else 0) ∧
    (countChar counts p).nOther + (if Between p then 1 else 0) =
      counts.nOther + (if classOf p = .other then 1 else 0) ∧
    (countChar counts p).nAlpha = counts.nAlpha + (if classOf p = .upper then 1 else 0) +
      (if classOf p = .lower then 1 else 0) + (if Between p then 1 else 0) := by
  rcases classOf_cases p with ⟨low, high, own⟩ | ⟨low, high, own⟩ | ⟨low, high, own⟩ |
    ⟨between, own⟩ | ⟨letter, digit, own⟩
  · have outside : ¬Between p := fun between => by have lower := between.1; omega
    rw [countChar, if_pos ⟨low, high⟩, own, if_neg outside]
    exact ⟨rfl, rfl, rfl, rfl, rfl⟩
  · have outside : ¬Between p := fun between => by have upper := between.2; omega
    have capital : ¬(65 ≤ p.toNat ∧ p.toNat ≤ 90) := by omega
    have small : 90 ≤ p.toNat ∧ p.toNat ≤ 122 := by omega
    rw [countChar, if_neg capital, if_pos small, own, if_neg outside]
    exact ⟨rfl, rfl, rfl, rfl, rfl⟩
  · have outside : ¬Between p := fun between => by have lower := between.1; omega
    have capital : ¬(65 ≤ p.toNat ∧ p.toNat ≤ 90) := by omega
    have small : ¬(90 ≤ p.toNat ∧ p.toNat ≤ 122) := by omega
    rw [countChar, if_neg capital, if_neg small, if_pos ⟨low, high⟩, own, if_neg outside]
    exact ⟨rfl, rfl, rfl, rfl, rfl⟩
  · have capital : ¬(65 ≤ p.toNat ∧ p.toNat ≤ 90) := by have lower := between.1; omega
    have small : 90 ≤ p.toNat ∧ p.toNat ≤ 122 := by
      have range := between
      rw [Between] at range
      omega
    rw [countChar, if_neg capital, if_pos small, own, if_pos between]
    exact ⟨rfl, rfl, rfl, rfl, rfl⟩
  · have outside : ¬Between p := fun between => by rw [Between] at between; omega
    have capital : ¬(65 ≤ p.toNat ∧ p.toNat ≤ 90) := by omega
    have small : ¬(90 ≤ p.toNat ∧ p.toNat ≤ 122) := by omega
    have number : ¬('0'.toNat ≤ p.toNat ∧ p.toNat ≤ '9'.toNat) := digit
    rw [countChar, if_neg capital, if_neg small, if_neg number, own, if_neg outside]
    exact ⟨rfl, rfl, rfl, rfl, rfl⟩

theorem countOf_cons (charClass : CharClass) (p : Char) (password : List Char) :
    countOf charClass (p :: password) =
      countOf charClass password + (if classOf p = charClass then 1 else 0) := by
  simp only [countOf, List.countP_cons, decide_eq_true_eq]

theorem betweenOf_cons (p : Char) (password : List Char) :
    betweenOf (p :: password) = betweenOf password + (if Between p then 1 else 0) := by
  simp only [betweenOf, List.countP_cons, decide_eq_true_eq]

theorem letters_cons (p : Char) (password : List Char) :
    letters (p :: password) = letters password + ((if classOf p = .upper then 1 else 0) +
      (if classOf p = .lower then 1 else 0)) := by
  rw [letters, countOf_cons, countOf_cons, letters]
  omega

/-- What the loop adds to the counters. -/
theorem foldl_countChar (password : List Char) (counts : Counts) :
    (password.foldl countChar counts).nUpper = counts.nUpper + countOf .upper password ∧
    (password.foldl countChar counts).nLower =
      counts.nLower + countOf .lower password + betweenOf password ∧
    (password.foldl countChar counts).nNumeric = counts.nNumeric + countOf .numeric password ∧
    (password.foldl countChar counts).nOther + betweenOf password =
      counts.nOther + countOf .other password ∧
    (password.foldl countChar counts).nAlpha =
      counts.nAlpha + letters password + betweenOf password := by
  induction password generalizing counts with
  | nil => exact ⟨rfl, rfl, rfl, rfl, rfl⟩
  | cons p password induction =>
      rcases countChar_eq counts p with ⟨upper, lower, numeric, other, alpha⟩
      rcases induction (countChar counts p) with
        ⟨uppers, lowers, numerics, others, alphas⟩
      rw [List.foldl_cons, letters_cons, countOf_cons, countOf_cons, countOf_cons, countOf_cons,
        betweenOf_cons]
      refine ⟨?_, ?_, ?_, ?_, ?_⟩
      · omega
      · omega
      · omega
      · omega
      · omega

/-- The counters of a password without characters between the letters. -/
theorem counts_of_free {password : List Char} (free : ∀ p ∈ password, ¬Between p) :
    password.foldl countChar .zero =
      ⟨countOf .upper password, countOf .lower password, countOf .numeric password,
        countOf .other password, letters password⟩ := by
  have none : betweenOf password = 0 := by
    rw [betweenOf, List.countP_eq_zero]
    intro p member
    simpa using free p member
  rcases foldl_countChar password .zero with ⟨upper, lower, numeric, other, alpha⟩
  rw [none] at lower other alpha
  simp only [Counts.zero, Nat.zero_add, Nat.add_zero] at upper lower numeric other alpha
  cases counted : password.foldl countChar .zero
  rw [Counts.zero] at counted
  simp only [counted] at upper lower numeric other alpha
  rw [upper, lower, numeric, other, alpha]

/-! ## Rounded comparisons -/

/-- The share is rounded to the value of the rule, and the test tells the two apart. -/
def Misjudged (r : Rule) (share : ℚ) : Prop :=
  r.value = .finite (Binary64.round share) ∧
    match r.test with
    | .none => False
    | .less => share < Binary64.round share
    | .lessEqual => Binary64.round share < share
    | .equal => share ≠ Binary64.round share
    | .greater => Binary64.round share < share
    | .greaterEqual => share < Binary64.round share

section Compare

variable {share bound : ℚ}

theorem round_lt_iff (representable : IsDouble bound) (nonneg : 0 ≤ share)
    (judged : ¬(bound = Binary64.round share ∧ share < Binary64.round share)) :
    Binary64.round share < bound ↔ share < bound := by
  constructor
  · intro rounded
    by_contra above
    exact absurd (le_round representable nonneg (not_lt.mp above)) (not_le.mpr rounded)
  · intro below
    apply lt_of_le_of_ne (round_le representable nonneg below.le)
    intro same
    exact judged ⟨same.symm, same ▸ below⟩

theorem lt_round_iff (representable : IsDouble bound) (nonneg : 0 ≤ share)
    (judged : ¬(bound = Binary64.round share ∧ Binary64.round share < share)) :
    bound < Binary64.round share ↔ bound < share := by
  constructor
  · intro rounded
    by_contra below
    exact absurd (round_le representable nonneg (not_lt.mp below)) (not_le.mpr rounded)
  · intro above
    apply lt_of_le_of_ne (le_round representable nonneg above.le)
    intro same
    exact judged ⟨same, same ▸ above⟩

theorem round_eq_iff (representable : IsDouble bound) (nonneg : 0 ≤ share)
    (judged : ¬(bound = Binary64.round share ∧ share ≠ Binary64.round share)) :
    Binary64.round share = bound ↔ share = bound := by
  constructor
  · intro rounded
    by_contra other
    exact judged ⟨rounded.symm, rounded ▸ other⟩
  · rintro rfl
    exact round_eq_self representable nonneg

theorem Double.le_finite (left right : ℚ) :
    (Double.finite left).le (.finite right) = decide (left ≤ right) := by
  rw [Bool.eq_iff_iff, decide_eq_true_eq]
  simp [Double.le, Double.lt, Double.eq, le_iff_lt_or_eq]

end Compare

/-- A test has the exact result unless the share is rounded to the value of the rule. -/
theorem ruleIsTrue_round {r : Rule} {share : ℚ} (nonneg : 0 ≤ share)
    (judged : ¬Misjudged r share) :
    ruleIsTrue r (.finite (Binary64.round share)) = ruleIsTrue r (.finite share) := by
  rcases r with ⟨test, value, loaded⟩
  cases value with
  | nan => cases test <;> rfl
  | infinite negative => cases test <;> cases negative <;> rfl
  | finite bound =>
      have representable := loaded bound rfl
      rw [Misjudged, Double.finite.injEq] at judged
      cases test with
      | none => rfl
      | less =>
          have compared := round_lt_iff representable nonneg judged
          exact decide_eq_decide.mpr compared
      | lessEqual =>
          have compared := lt_round_iff representable nonneg judged
          simp only [ruleIsTrue, Double.le_finite]
          exact decide_eq_decide.mpr (not_lt.symm.trans ((not_congr compared).trans not_lt))
      | equal =>
          have compared := round_eq_iff representable nonneg judged
          simp only [ruleIsTrue, Double.eq, Double.finite.injEq]
          exact decide_eq_decide.mpr compared
      | greater =>
          have compared := lt_round_iff representable nonneg judged
          exact decide_eq_decide.mpr compared
      | greaterEqual =>
          have compared := round_lt_iff representable nonneg judged
          simp only [ruleIsTrue, Double.le_finite]
          exact decide_eq_decide.mpr (not_lt.symm.trans ((not_congr compared).trans not_lt))

/-! ## Verdicts -/

/-- At least one letter. -/
def HasLetter (password : List Char) : Prop :=
  ∃ p ∈ password, classOf p = .upper ∨ classOf p = .lower

/-- The rule holds of the exact number. -/
def Rule.Holds (r : Rule) (share : ℚ) : Prop := ruleIsTrue r (.finite share) = true

/-- If the rule of the length holds, there is no character between the letters; and up to the first
rule that does not hold no share is rounded to the value of its rule so that the test changes. -/
structure Judgeable (rules : Rules) (password : List Char) : Prop where
  free : rules.length.Holds password.length → ∀ p ∈ password, ¬Between p
  alpha : rules.length.Holds password.length → ¬Misjudged rules.alpha (alphaRatio password)
  numeric : rules.length.Holds password.length → rules.alpha.Holds (alphaRatio password) →
    ¬Misjudged rules.numeric (numericRatio password)
  other : rules.length.Holds password.length → rules.alpha.Holds (alphaRatio password) →
    rules.numeric.Holds (numericRatio password) → ¬Misjudged rules.other (otherRatio password)
  alphadelta : rules.length.Holds password.length → rules.alpha.Holds (alphaRatio password) →
    rules.numeric.Holds (numericRatio password) → rules.other.Holds (otherRatio password) →
      ¬Misjudged rules.alphadelta (deltaRatio password)

section Verdicts

variable {rules : Rules} {password : List Char}

theorem HasLetter.letters_pos (letter : HasLetter password) : 0 < letters password := by
  rcases letter with ⟨p, member, upper | lower⟩
  · have counted : 0 < countOf .upper password :=
      List.countP_pos_iff.mpr ⟨p, member, decide_eq_true upper⟩
    rw [letters]
    omega
  · have counted : 0 < countOf .lower password :=
      List.countP_pos_iff.mpr ⟨p, member, decide_eq_true lower⟩
    rw [letters]
    omega

theorem HasLetter.length_pos (letter : HasLetter password) : 0 < password.length := by
  rcases letter with ⟨p, member, _⟩
  exact List.length_pos_of_mem member

theorem divide_of_pos {left right : ℚ} (positive : 0 < right) :
    divide left right = .finite (Binary64.round (left / right)) :=
  if_neg positive.ne'

/-- The shares that are compared, when the counters are those of the classes. -/
theorem pwStrength_of_counts (rules : Rules) (letter : HasLetter password)
    (counted : password.foldl countChar .zero =
      ⟨countOf .upper password, countOf .lower password, countOf .numeric password,
        countOf .other password, letters password⟩) :
    pwStrength rules (some password) =
      if !ruleIsTrue rules.length (.finite password.length) then -70
      else if !ruleIsTrue rules.alpha (.finite (Binary64.round (alphaRatio password))) then -71
      else if !ruleIsTrue rules.numeric (.finite (Binary64.round (numericRatio password))) then -72
      else if !ruleIsTrue rules.other (.finite (Binary64.round (otherRatio password))) then -73
      else if !ruleIsTrue rules.alphadelta (.finite (Binary64.round (deltaRatio password))) then -74
      else 1 := by
  have length : (0 : ℚ) < password.length := by exact_mod_cast letter.length_pos
  have alpha : (0 : ℚ) < letters password := by exact_mod_cast letter.letters_pos
  have absolute : (if (countOf .upper password : ℚ) - countOf .lower password < 0 then
      -((countOf .upper password : ℚ) - countOf .lower password)
      else (countOf .upper password : ℚ) - countOf .lower password) =
      |(countOf .upper password : ℚ) - countOf .lower password| := by
    split_ifs with negative
    · exact (abs_of_neg negative).symm
    · exact (abs_of_nonneg (not_lt.mp negative)).symm
  simp only [pwStrength, counted, absolute, divide_of_pos length, divide_of_pos alpha]
  rfl

theorem alphaRatio_nonneg (password : List Char) : 0 ≤ alphaRatio password := by
  rw [alphaRatio]
  positivity

theorem numericRatio_nonneg (password : List Char) : 0 ≤ numericRatio password := by
  rw [numericRatio]
  positivity

theorem otherRatio_nonneg (password : List Char) : 0 ≤ otherRatio password := by
  rw [otherRatio]
  positivity

theorem deltaRatio_nonneg (password : List Char) : 0 ≤ deltaRatio password := by
  rw [deltaRatio]
  positivity

/-- The verdict is that on the exact numbers. -/
theorem pwStrength_of_judgeable (letter : HasLetter password)
    (judgeable : Judgeable rules password) :
    pwStrength rules (some password) = exactStrength rules password := by
  cases length : ruleIsTrue rules.length (.finite password.length) with
  | false =>
      simp only [pwStrength, exactStrength, length]
      rfl
  | true =>
      rw [pwStrength_of_counts rules letter (counts_of_free (judgeable.free length)),
        exactStrength, length, ruleIsTrue_round (alphaRatio_nonneg _) (judgeable.alpha length)]
      cases alpha : ruleIsTrue rules.alpha (.finite (alphaRatio password)) with
      | false => rfl
      | true =>
          rw [ruleIsTrue_round (numericRatio_nonneg _) (judgeable.numeric length alpha)]
          cases numeric : ruleIsTrue rules.numeric (.finite (numericRatio password)) with
          | false => rfl
          | true =>
              rw [ruleIsTrue_round (otherRatio_nonneg _) (judgeable.other length alpha numeric)]
              cases other : ruleIsTrue rules.other (.finite (otherRatio password)) with
              | false => rfl
              | true =>
                  rw [ruleIsTrue_round (deltaRatio_nonneg _)
                    (judgeable.alphadelta length alpha numeric other)]

end Verdicts

/-! ## All rules -/

theorem isDouble_zero : IsDouble 0 :=
  ⟨0, 0, by norm_num, by norm_num, by norm_num, by norm_num⟩

theorem isDouble_one : IsDouble 1 :=
  ⟨1, 0, by norm_num, by norm_num, by norm_num, by norm_num⟩

/-- A rule that has not been loaded. -/
def Rule.unset : Rule where
  test := .none
  value := .finite 0
  loaded := by
    rintro _ ⟨rfl⟩
    exact isDouble_zero

def Rules.unset : Rules := ⟨.unset, .unset, .unset, .unset, .unset⟩

/-- A share that is misjudged has another result. -/
theorem ruleIsTrue_of_misjudged {r : Rule} {share : ℚ} (misjudged : Misjudged r share) :
    ruleIsTrue r (.finite (Binary64.round share)) ≠ ruleIsTrue r (.finite share) := by
  rcases r with ⟨test, value, loaded⟩
  rcases misjudged with ⟨same, differs⟩
  simp only at same differs
  subst same
  cases test with
  | none => exact absurd differs id
  | less => simp [ruleIsTrue, Double.lt, differs]
  | lessEqual =>
      simp only [ruleIsTrue, Double.le_finite, le_refl, decide_true, ne_eq]
      simpa using differs
  | equal => simp [ruleIsTrue, Double.eq, differs]
  | greater => simp [ruleIsTrue, Double.lt, differs]
  | greaterEqual =>
      simp only [ruleIsTrue, Double.le_finite, le_refl, decide_true, ne_eq]
      simpa using differs

/-- A verdict tells the result of a rule, and if it holds the verdict on the rules behind it. -/
theorem result_of_verdict {code left right : Int} {holds truth : Bool} (other : left ≠ code)
    (others : right ≠ code)
    (same : (if !holds then code else left) = if !truth then code else right) :
    holds = truth ∧ (truth = true → left = right) := by
  cases holds with
  | false =>
      cases truth with
      | false => exact ⟨rfl, fun holds => absurd holds Bool.false_ne_true⟩
      | true => exact absurd same.symm others
  | true =>
      cases truth with
      | false => exact absurd same other
      | true => exact ⟨rfl, fun _ => same⟩

/-- Without a character between the letters the right verdict tells that no share is misjudged. -/
theorem judgeable_of_verdict {rules : Rules} {password : List Char} (letter : HasLetter password)
    (free : ∀ p ∈ password, ¬Between p)
    (exact : pwStrength rules (some password) = exactStrength rules password) :
    Judgeable rules password := by
  rw [pwStrength_of_counts rules letter (counts_of_free free), exactStrength] at exact
  have lengths := result_of_verdict (by split_ifs <;> decide) (by split_ifs <;> decide) exact
  have alphas := fun length => result_of_verdict (by split_ifs <;> decide)
    (by split_ifs <;> decide) (lengths.2 length)
  have numerics := fun length alpha => result_of_verdict (by split_ifs <;> decide)
    (by split_ifs <;> decide) ((alphas length).2 alpha)
  have others := fun length alpha numeric => result_of_verdict (by split_ifs <;> decide)
    (by split_ifs <;> decide) ((numerics length alpha).2 numeric)
  have deltas := fun length alpha numeric other => result_of_verdict (by decide) (by decide)
    ((others length alpha numeric).2 other)
  constructor
  · exact fun _ => free
  · intro length misjudged
    exact ruleIsTrue_of_misjudged misjudged (alphas length).1
  · intro length alpha misjudged
    exact ruleIsTrue_of_misjudged misjudged (numerics length alpha).1
  · intro length alpha numeric misjudged
    exact ruleIsTrue_of_misjudged misjudged (others length alpha numeric).1
  · intro length alpha numeric other misjudged
    exact ruleIsTrue_of_misjudged misjudged (deltas length alpha numeric other).1

section Sharp

variable {password : List Char}

theorem letters_add_betweenOf_le (password : List Char) :
    letters password + betweenOf password ≤ password.length := by
  induction password with
  | nil => exact Nat.le_refl 0
  | cons p password induction =>
      have one : (if classOf p = .upper then 1 else 0) + (if classOf p = .lower then 1 else 0) +
          (if Between p then 1 else 0) ≤ 1 := by
        have alpha := (countChar_eq .zero p).2.2.2.2
        have step : (countChar .zero p).nAlpha ≤ 1 := by
          simp only [countChar, Counts.zero]
          split_ifs <;> decide
        simp only [Counts.zero] at alpha step
        omega
      rw [letters_cons, betweenOf_cons, List.length_cons]
      omega

/-- With fewer than 2 ^ 53 characters a share is not rounded to a smaller one. -/
theorem round_ne_smaller {count more length : Nat} (positive : 0 < more)
    (inside : count + more ≤ length) (short : length < 2 ^ 53) :
    Binary64.round (((count + more : Nat) : ℚ) / length) ≠ count / length := by
  have whole : (0 : ℚ) < length := by
    have some : 0 < length := by omega
    exact_mod_cast some
  intro same
  rcases inside.eq_or_lt with full | proper
  · rw [full, div_self whole.ne', round_eq_self isDouble_one zero_le_one] at same
    have equal : (count : ℚ) = length := by
      rw [eq_div_iff whole.ne', one_mul] at same
      exact same.symm
    have numbers : count = length := by exact_mod_cast equal
    omega
  · have share : ((count + more : Nat) : ℚ) / length < 1 := by
      rw [div_lt_one whole]
      exact_mod_cast proper
    have nonzero : 0 < ((count + more : Nat) : ℚ) / length := by
      have some : (0 : ℚ) < ((count + more : Nat) : ℚ) := by
        have number : 0 < count + more := by omega
        exact_mod_cast number
      exact div_pos some whole
    have error := (round_error (((count + more : Nat) : ℚ) / length)).trans
      (div_le_div_of_nonneg_right (ulp_le_of_lt_one nonzero share) zero_le_two)
    rw [same] at error
    have gap : (count : ℚ) / length - ((count + more : Nat) : ℚ) / length = -(more / length) := by
      rw [← sub_div]
      push_cast
      ring
    rw [gap, abs_neg, abs_of_nonneg (by positivity)] at error
    have least : (1 : ℚ) / length ≤ more / length := by
      apply div_le_div_of_nonneg_right _ whole.le
      exact_mod_cast positive
    have large : (2 : ℚ) ^ (-53 : ℤ) < 1 / length := by
      rw [lt_div_iff₀ whole]
      have bound : (length : ℚ) < 2 ^ 53 := by exact_mod_cast short
      calc (2 : ℚ) ^ (-53 : ℤ) * length < 2 ^ (-53 : ℤ) * 2 ^ 53 :=
            mul_lt_mul_of_pos_left bound (by positivity)
        _ = 1 := by norm_num
    have half : (0 : ℚ) < 2 ^ (-53 : ℤ) := by positivity
    linarith

/-- With a character between the letters there is a rule that gives another verdict. -/
theorem free_of_exact (letter : HasLetter password) (short : password.length < 2 ^ 53)
    (exact : ∀ rules, pwStrength rules (some password) = exactStrength rules password) :
    ∀ p ∈ password, ¬Between p := by
  intro p member between
  have some_between : 0 < betweenOf password :=
    List.countP_pos_iff.mpr ⟨p, member, decide_eq_true between⟩
  have inside := letters_add_betweenOf_le password
  have length : (0 : ℚ) < password.length := by exact_mod_cast letter.length_pos
  have proper : ((letters password + betweenOf password : Nat) : ℚ) / password.length ≤ 1 := by
    rw [div_le_one length]
    exact_mod_cast inside
  let rule : Rule :=
    { test := .equal
      value := .finite (Binary64.round
        (((letters password + betweenOf password : Nat) : ℚ) / password.length))
      loaded := by
        rintro _ ⟨rfl⟩
        exact isDouble_round (by positivity) proper }
  have verdict := exact { Rules.unset with alpha := rule }
  have counted : (password.foldl countChar .zero).nAlpha =
      letters password + betweenOf password := by
    have alpha := (foldl_countChar password .zero).2.2.2.2
    simp only [Counts.zero] at alpha ⊢
    omega
  have code : pwStrength { Rules.unset with alpha := rule } (some password) =
      if !ruleIsTrue rule (.finite (Binary64.round
        (((letters password + betweenOf password : Nat) : ℚ) / password.length)))
      then -71 else 1 := by
    simp only [pwStrength, counted, divide_of_pos length]
    rfl
  have truth : exactStrength { Rules.unset with alpha := rule } password =
      if !ruleIsTrue rule (.finite (alphaRatio password)) then -71 else 1 := rfl
  rw [code, truth] at verdict
  have same := (result_of_verdict (by decide) (by decide) verdict).1
  have equal : alphaRatio password = Binary64.round
      (((letters password + betweenOf password : Nat) : ℚ) / password.length) := by
    simpa [ruleIsTrue, Double.eq, rule] using same
  exact round_ne_smaller some_between inside short equal.symm

end Sharp

/-- For a password with a letter the verdict is that on the exact numbers if no character is
between the letters and no share is misjudged; without a character between the letters it is
only then; and for no password is more than this enough for all rules. -/
theorem pwStrength_exact_iff {password : List Char} (letter : HasLetter password) :
    (∀ rules, Judgeable rules password →
      pwStrength rules (some password) = exactStrength rules password) ∧
    ((∀ p ∈ password, ¬Between p) → ∀ rules,
      (pwStrength rules (some password) = exactStrength rules password ↔
        Judgeable rules password)) ∧
    (password.length < 2 ^ 53 →
      ((∀ rules, pwStrength rules (some password) = exactStrength rules password) ↔
        ∀ rules, Judgeable rules password)) := by
  have enough : ∀ rules, Judgeable rules password →
      pwStrength rules (some password) = exactStrength rules password :=
    fun _ judgeable => pwStrength_of_judgeable letter judgeable
  refine ⟨enough, fun free rules => ⟨judgeable_of_verdict letter free, enough rules⟩, ?_⟩
  intro short
  constructor
  · intro exact rules
    exact judgeable_of_verdict letter (free_of_exact letter short exact) (exact rules)
  · intro judgeable rules
    exact enough rules (judgeable rules)

/-! ## Sample rules -/

/-- `other > 0`. -/
def otherRequired : Rules :=
  { Rules.unset with
    other :=
      { test := .greater
        value := .finite 0
        loaded := by
          rintro _ ⟨rfl⟩
          exact isDouble_zero } }

theorem pwStrength_exact_hyphen :
    pwStrength otherRequired (some ['a', '-']) = exactStrength otherRequired ['a', '-'] := by
  apply (pwStrength_exact_iff ⟨'a', by decide, by decide⟩).1
  constructor
  · exact fun _ =>
      List.forall_mem_cons.mpr ⟨by decide, List.forall_mem_singleton.mpr (by decide)⟩
  · exact fun _ misjudged => misjudged.2
  · exact fun _ _ misjudged => misjudged.2
  · rintro - - - ⟨zero, -⟩
    have equal := Double.finite.inj zero
    have rounded : Binary64.round (otherRatio ['a', '-']) ≠ 0 := by decide +kernel
    exact rounded equal.symm
  · exact fun _ _ _ _ misjudged => misjudged.2

/-- An underscore is taken for a letter. -/
theorem pwStrength_not_exact : ¬∀ (rules : Rules) (password : List Char), HasLetter password →
    pwStrength rules (some password) = exactStrength rules password := by
  intro exact
  have same := exact otherRequired ['a', '_'] ⟨'a', by decide, by decide⟩
  have code : pwStrength otherRequired (some ['a', '_']) = -73 := by
    decide +kernel
  have truth : exactStrength otherRequired ['a', '_'] = 1 := by
    decide +kernel
  rw [code, truth] at same
  exact absurd same (by decide)

end Vpopmail.Pwstr

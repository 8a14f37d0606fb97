import Vpopmail.Client
import Vpopmail.QuotaCanonical

/-! # The two quota engines

`qcalc` works on the `maildirsize` file, `quota_compare` on the usage daemon. Both interpret
the quota that is stored for the user.
-/

namespace Vpopmail.Maildirquota

open Text Decimal

/-! ## `qcalc` -/

/-- The share of a limit, with both sides divided where they are huge. -/
def percentage (usage i : Int) : Int :=
  let x : Int := if 20000000 < i then 1024 else 1
  if i ≠ 0 then (usage.tdiv x * 100).tdiv (i.tdiv x) else 100

/-- The loop over the numbers of the quota. There is no result when `i` overflows. -/
def qcalcLoop (s : Int) (n : BitVec 32) :
    (rounds : Nat) → List Char → (spercentage npercentage : Int) → Option (Int × Int)
  | 0, _, spercentage, npercentage => some (0, max spercentage npercentage)
  | _ + 1, [], spercentage, npercentage => some (0, max spercentage npercentage)
  | rounds + 1, char :: quota, spercentage, npercentage =>
      if !char.isDigit then qcalcLoop s n rounds quota spercentage npercentage
      else
        let i : Int := readDigits (char :: quota)
        let quota := (char :: quota).dropWhile Char.isDigit
        if longMax < i then none
        else if quota.head? = some 'C' then
          if i < n.toNat then some (-1, 100)
          else qcalcLoop s n rounds quota spercentage (percentage n.toNat i)
        else if i < s then some (-1, 100)
        else qcalcLoop s n rounds quota (percentage s i) npercentage

/-- `qcalc`, with the percentage it stores. -/
def qcalc (s : Int) (n : BitVec 32) (quota : List Char) : Option (Int × Int) :=
  qcalcLoop s n (quota.length + 1) quota 0 0

/-! ## `quota_compare` -/

/-- The comparison of `quota_compare` with the limits of the user, if there is a reply. -/
def overQuota (limits : BitVec 64 × BitVec 64) (usage count : BitVec 64) : Bool :=
  usage ≠ -1 && Client.overUserQuota (.ofBitVec limits.1) (.ofBitVec limits.2)
    ⟨.ofBitVec usage, .ofBitVec count⟩

/-! ## Stored quotas -/

/-- What `%.0f` prints: the value of a double without a fraction, or none. -/
inductive Printed
  | whole (minus : Bool) (digits : Nat)
      (double : ∃ mantissa exponent, mantissa < 2 ^ 53 ∧ digits = mantissa * 2 ^ exponent)
  | infinite (minus : Bool)
  | notANumber (minus : Bool)

/-- A quota as `format_maildirquota` stores it, where `%lu` has printed the count. -/
inductive Stored
  | noquota
  | limits (size : Option Printed) (count : Option (BitVec 64))

def sign (minus : Bool) : List Char := if minus then ['-'] else []

def Printed.text : Printed → List Char
  | .whole minus digits _ => sign minus ++ spellNat digits
  | .infinite minus => sign minus ++ ['i', 'n', 'f']
  | .notANumber minus => sign minus ++ ['n', 'a', 'n']

def Stored.text : Stored → List Char
  | .noquota => ['N', 'O', 'Q', 'U', 'O', 'T', 'A']
  | .limits size count => limitsText (size.map Printed.text)
      (count.map fun count => spellNat count.toNat)

/-- A usage that is below or above the limit, unless the limit is zero. -/
def ApartFrom (usage : Nat) (limit : Int) : Prop := limit ≠ 0 → (usage : Int) ≠ limit

def Printed.Apart (usage : Nat) : Printed → Prop
  | .whole minus digits _ => ApartFrom usage (if minus then -digits else digits)
  | .infinite _ | .notANumber _ => True

/-- A usage in bytes and messages that meets no limit exactly. -/
structure Stored.Apart (s n : Nat) (size : Option Printed) (count : Option (BitVec 64)) :
    Prop where
  size : ∀ limit, size = some limit → limit.Apart s
  count : ∀ limit, count = some limit → ApartFrom n limit.toNat

/-- The engines decide alike, and both decide. -/
def Alike (text : List Char) (s n : Nat) : Prop :=
  ∃ limits percentage, quotaMtos text = .ok limits ∧
    qcalc s (BitVec.ofNat 32 n) text =
      some (if overQuota limits (BitVec.ofNat 64 s) (BitVec.ofNat 64 n) then -1 else 0, percentage)

/-- For every usage apart from the limits. -/
def Stored.Agrees (stored : Stored) : Prop :=
  ∀ s n, s < 2 ^ 63 → n < 2 ^ 32 →
    (match stored with
      | .noquota => True
      | .limits size count => Stored.Apart s n size count) →
    Alike stored.text s n

/-- A size that both engines take for the same limit. -/
def Printed.Common : Printed → Prop
  | .whole minus digits _ => minus = false ∧ 0 < digits ∧ digits < 2 ^ 63
  | .infinite _ | .notANumber _ => True

/-- Every component is a limit for both engines, and there is one. -/
def Stored.Common : Stored → Prop
  | .noquota => True
  | .limits size count => (size ≠ none ∨ count ≠ none) ∧
      (∀ limit, size = some limit → limit.Common) ∧
      ∀ limit, count = some limit → 0 < limit.toNat ∧ limit.toNat < 2 ^ 63

/-! ## Results of `format_maildirquota` -/

theorem Stored.exists_text_eq_spell {doubles : Doubles}
    (printed : ∀ value, ∃ limit : Printed, limit.text = doubles.print value)
    (limits : QuotaLimits doubles) : ∃ stored : Stored, stored.text = limits.spell := by
  obtain ⟨size, text⟩ := printed limits.size
  have count : (BitVec.ofInt 64 limits.count).toNat = (limits.count % 2 ^ 64).toNat :=
    BitVec.toNat_ofInt limits.count
  rw [QuotaLimits.spell, ← text, ← count]
  split
  · split
    · exact ⟨.limits none none, rfl⟩
    · exact ⟨.limits (some size) none, rfl⟩
  · split
    · exact ⟨.limits none (some _), rfl⟩
    · exact ⟨.limits (some size) (some _), rfl⟩

theorem Stored.exists_text_eq {doubles : Doubles}
    (printed : ∀ value, ∃ limit : Printed, limit.text = doubles.print value)
    {quota text : List Char} (formatted : formatMaildirquota doubles quota = .ok text) :
    ∃ stored : Stored, stored.text = text := by
  rw [formatMaildirquota] at formatted
  split at formatted
  · next unlimited =>
      rw [← Except.ok.inj formatted, unlimited]
      exact ⟨.noquota, by decide⟩
  · simp only at formatted
    split at formatted
    · rw [← Except.ok.inj formatted]
      exact Stored.exists_text_eq_spell printed _
    · cases formatted

/-! ## The loop of `qcalc` -/

section Loop

variable {s : Int} {n : BitVec 32}

/-- Enough rounds are as good as more. -/
theorem qcalcLoop_rounds {rounds others : Nat} {text : List Char} (enough : text.length < rounds)
    (alsoEnough : text.length < others) (spercentage npercentage : Int) :
    qcalcLoop s n rounds text spercentage npercentage =
      qcalcLoop s n others text spercentage npercentage := by
  induction rounds generalizing others text spercentage npercentage with
  | zero => cases enough
  | succ rounds induction =>
      obtain ⟨others, rfl⟩ := Nat.exists_eq_succ_of_ne_zero (Nat.ne_zero_of_lt alsoEnough)
      cases text with
      | nil => rfl
      | cons char text =>
          rw [List.length_cons] at enough alsoEnough
          have shorter : ((char :: text).dropWhile Char.isDigit).length ≤ text.length ∨
              char.isDigit = false := by
            cases digit : char.isDigit with
            | true =>
                rw [List.dropWhile_cons_of_pos digit]
                exact .inl (List.length_dropWhile_le _ text)
            | false => exact .inr rfl
          rw [qcalcLoop, qcalcLoop]
          cases digit : char.isDigit with
          | false => exact induction (by omega) (by omega) _ _
          | true =>
              have kept := shorter.resolve_right (by rw [digit]; decide)
              have same : ∀ first second,
                  qcalcLoop s n rounds ((char :: text).dropWhile Char.isDigit) first second =
                    qcalcLoop s n others ((char :: text).dropWhile Char.isDigit) first second :=
                fun _ _ => induction (by omega) (by omega) _ _
              simp only [Bool.not_true, Bool.false_eq_true, if_false, same]

/-- The rest of the loop. -/
def qcalcFrom (s : Int) (n : BitVec 32) (text : List Char) (spercentage npercentage : Int) :
    Option (Int × Int) :=
  qcalcLoop s n (text.length + 1) text spercentage npercentage

theorem qcalcFrom_skip {char : Char} (notDigit : char.isDigit = false) (text : List Char)
    (spercentage npercentage : Int) :
    qcalcFrom s n (char :: text) spercentage npercentage =
      qcalcFrom s n text spercentage npercentage := by
  rw [qcalcFrom, List.length_cons, qcalcLoop, notDigit]
  rfl

theorem qcalcFrom_number (value : Nat) {rest : List Char} (stops : Stops rest)
    (spercentage npercentage : Int) :
    qcalcFrom s n (spellNat value ++ rest) spercentage npercentage =
      if longMax < value then none
      else if rest.head? = some 'C' then
        if (value : Int) < n.toNat then some (-1, 100)
        else qcalcFrom s n rest spercentage (percentage n.toNat value)
      else if value < s then some (-1, 100)
      else qcalcFrom s n rest (percentage s value) npercentage := by
  obtain ⟨char, tail, spelled, digit⟩ := exists_spellNat_eq_cons value
  have read := readDigits_spellNat_append value stops
  have behind : (spellNat value ++ rest).dropWhile Char.isDigit = rest := by
    rw [List.dropWhile_append_of_pos fun _ member => isDigit_of_mem_spellNat member]
    cases rest with
    | nil => rfl
    | cons next rest => rw [List.dropWhile_cons_of_neg (by rw [stops next rest rfl]; decide)]
  have fewer : ∀ first second, qcalcLoop s n ((tail ++ rest).length + 1) rest first second =
      qcalcFrom s n rest first second := by
    intro first second
    apply qcalcLoop_rounds _ (Nat.lt_succ_self _)
    rw [List.length_append]
    omega
  rw [spelled, List.cons_append] at read behind ⊢
  rw [qcalcFrom, List.length_cons, qcalcLoop, digit, read, behind]
  simp only [Bool.not_true, Bool.false_eq_true, if_false, fewer]

end Loop

/-! ## What `qcalc` makes of stored quotas -/

section Verdict

variable {s : Int} {n : BitVec 32}

/-- Whether a usage is over a number, unless the number overflows. -/
def exceeds (value : Nat) (usage : Int) : Option Bool :=
  if longMax < value then none else some (decide ((value : Int) < usage))

/-- What `qcalc` does with a size, in which it ignores the sign. -/
def Printed.exceeds (usage : Int) : Printed → Option Bool
  | .whole _ digits _ => Maildirquota.exceeds digits usage
  | .infinite _ | .notANumber _ => some false

def verdict (size count : Option Bool) : Option Int :=
  size.bind fun exceeded =>
    if exceeded then some (-1) else count.map fun exceeded => if exceeded then -1 else 0

/-- The result without the percentage. -/
def decided (result : Option (Int × Int)) : Option Int := result.map Prod.fst

theorem decided_size (value : Nat) (rest : List Char) (spercentage npercentage : Int) :
    ∃ first second, decided (qcalcFrom s n (spellNat value ++ 'S' :: rest) spercentage
        npercentage) =
      (exceeds value s).bind fun exceeded =>
        if exceeded then some (-1) else decided (qcalcFrom s n rest first second) := by
  refine ⟨percentage s value, npercentage, ?_⟩
  rw [qcalcFrom_number value (stops_cons rfl), exceeds, List.head?_cons,
    if_neg (by decide : ¬some 'S' = some 'C')]
  split
  · rfl
  · rw [Option.bind_some]
    split
    · next less => rw [if_pos (decide_eq_true less), decided, Option.map_some]
    · next notLess => rw [if_neg (by simpa using notLess), qcalcFrom_skip rfl]

theorem decided_count (value : Nat) (spercentage npercentage : Int) :
    decided (qcalcFrom s n (spellNat value ++ ['C']) spercentage npercentage) =
      (exceeds value n.toNat).map fun exceeded => if exceeded then -1 else 0 := by
  rw [qcalcFrom_number value (stops_cons rfl), qcalcFrom_skip rfl, exceeds, List.head?_cons,
    if_pos rfl]
  split
  · rfl
  · rw [Option.map_some]
    split
    · next less => rw [if_pos (decide_eq_true less)]; rfl
    · next notLess => rw [if_neg (by simpa using notLess)]; rfl

theorem decided_sign (minus : Bool) (text : List Char) (spercentage npercentage : Int) :
    qcalcFrom s n (sign minus ++ text) spercentage npercentage =
      qcalcFrom s n text spercentage npercentage := by
  cases minus with
  | false => rfl
  | true => exact qcalcFrom_skip rfl text spercentage npercentage

theorem decided_printed (limit : Printed) (rest : List Char) (spercentage npercentage : Int) :
    ∃ first second, decided (qcalcFrom s n (limit.text ++ 'S' :: rest) spercentage
        npercentage) =
      (limit.exceeds s).bind fun exceeded =>
        if exceeded then some (-1) else decided (qcalcFrom s n rest first second) := by
  cases limit with
  | whole minus digits double =>
      rw [Printed.text, List.append_assoc, decided_sign]
      exact decided_size digits rest spercentage npercentage
  | infinite minus | notANumber minus =>
      refine ⟨spercentage, npercentage, ?_⟩
      rw [Printed.text, List.append_assoc, decided_sign]
      simp only [List.cons_append, List.nil_append]
      rw [qcalcFrom_skip rfl, qcalcFrom_skip rfl, qcalcFrom_skip rfl, qcalcFrom_skip rfl]
      rfl

def countExceeds (n : BitVec 32) (count : Option (BitVec 64)) : Option Bool :=
  count.elim (some false) fun limit => exceeds limit.toNat n.toNat

theorem decided_qcalc (size : Option Printed) (count : Option (BitVec 64)) :
    decided (qcalc s n (Stored.limits size count).text) =
      verdict (size.elim (some false) (Printed.exceeds s)) (countExceeds n count) := by
  rw [qcalc, ← qcalcFrom, Stored.text]
  cases size with
  | none =>
      cases count with
      | none => rfl
      | some count =>
          rw [Option.map_none, Option.map_some, limitsText, decided_count]
          rfl
  | some size =>
      cases count with
      | none =>
          obtain ⟨first, second, result⟩ := decided_printed (s := s) (n := n) size [] 0 0
          exact result
      | some count =>
          obtain ⟨first, second, result⟩ := decided_printed (s := s) (n := n) size
            (',' :: (spellNat count.toNat ++ ['C'])) 0 0
          have behind := decided_count (s := s) (n := n) count.toNat first second
          rw [← qcalcFrom_skip (rfl : ','.isDigit = false)] at behind
          rw [behind] at result
          rw [Option.map_some, Option.map_some, limitsText, List.append_assoc, List.append_assoc]
          exact result

end Verdict

/-! ## What the daemon makes of stored quotas -/

section Words

/-- The test of `quota_compare` of one limit. -/
def limitOver (limit : BitVec 64) (usage : Nat) : Bool :=
  limit ≠ 0 && limit ≤ BitVec.ofNat 64 usage

theorem overQuota_eq (limits : BitVec 64 × BitVec 64) {s : Nat} (small : s < 2 ^ 63) (n : Nat) :
    overQuota limits (BitVec.ofNat 64 s) (BitVec.ofNat 64 n) =
      (limitOver limits.1 s || limitOver limits.2 n) := by
  have answered : BitVec.ofNat 64 s ≠ -1 := by
    intro equal
    have value := congrArg BitVec.toNat equal
    rw [BitVec.toNat_ofNat, Nat.mod_eq_of_lt (by omega)] at value
    have minus : (-1 : BitVec 64).toNat = 2 ^ 64 - 1 := by decide
    omega
  have zero : ∀ limit : BitVec 64, decide (UInt64.ofBitVec limit ≠ 0) = decide (limit ≠ 0) :=
    fun _ => decide_eq_decide.mpr (not_congr UInt64.toBitVec_inj.symm)
  rw [overQuota, decide_eq_true answered, Bool.true_and, Client.overUserQuota, zero, zero]
  rfl

theorem limitOver_absent (usage : Nat) : limitOver 0 usage = false := rfl

theorem limitOver_unused (limit : BitVec 64) : limitOver limit 0 = false := by
  rw [limitOver, Bool.and_eq_false_iff]
  by_cases zero : limit = 0
  · exact .inl (by simpa using zero)
  · refine .inr (decide_eq_false fun below => zero ?_)
    rw [BitVec.le_def, BitVec.toNat_ofNat] at below
    exact BitVec.eq_of_toNat_eq (Nat.le_zero.mp below)

/-- Apart from a limit, reaching it and exceeding it are the same. -/
theorem limitOver_ofNat {limit usage : Nat} (positive : 0 < limit) (small : limit < 2 ^ 63)
    (usageSmall : usage < 2 ^ 63) (apart : usage ≠ limit) :
    limitOver (BitVec.ofNat 64 limit) usage = decide ((limit : Int) < usage) := by
  have value : (BitVec.ofNat 64 limit).toNat = limit := by
    rw [BitVec.toNat_ofNat, Nat.mod_eq_of_lt (by omega)]
  have used : (BitVec.ofNat 64 usage).toNat = usage := by
    rw [BitVec.toNat_ofNat, Nat.mod_eq_of_lt (by omega)]
  have configured : BitVec.ofNat 64 limit ≠ 0 := by
    intro zero
    rw [zero] at value
    exact Nat.ne_of_lt positive value
  rw [limitOver, decide_eq_true configured, Bool.true_and]
  apply decide_eq_decide.mpr
  rw [BitVec.le_def, value, used]
  omega

/-- What `strtoll` reads of a printed size. -/
def Printed.word : Printed → BitVec 64
  | .whole minus digits _ =>
      BitVec.ofInt 64 (max longMin (min longMax (if minus then -digits else digits)))
  | .infinite _ | .notANumber _ => 0

theorem Printed.strtoll_text (limit : Printed) : strtoll limit.text = limit.word := by
  cases limit with
  | whole minus digits double =>
      cases minus with
      | false =>
          have read := atol_spellInt_append (.ofNat digits) stops_nil
          rw [List.append_nil] at read
          exact congrArg (BitVec.ofInt 64) read
      | true =>
          have read := readDigits_spellNat_append digits stops_nil
          rw [List.append_nil] at read
          have skipped : ('-' :: spellNat digits).dropWhile isSpace = '-' :: spellNat digits :=
            List.dropWhile_cons_of_neg (by decide)
          rw [Printed.text, sign, if_pos rfl, strtoll, strtol, List.singleton_append, skipped,
            readSigned, read]
          rfl
  | infinite minus | notANumber minus => cases minus <;> decide

theorem Printed.oneComponent_text (limit : Printed) : OneComponent limit.text := by
  cases limit with
  | whole minus digits double =>
      have one := oneComponent_spellNat digits
      refine ⟨List.append_ne_nil_of_right_ne_nil _ one.nonempty, ?_⟩
      rw [Printed.text, free_append]
      refine ⟨?_, one.free⟩
      cases minus <;> decide
  | infinite minus | notANumber minus => cases minus <;> exact ⟨by decide, by decide⟩

variable (size : Option Printed) (count : Option (BitVec 64))

def sizeWord : BitVec 64 := stored (size.elim 0 Printed.word)

def countWord : BitVec 64 := limitWord (count.map BitVec.toNat)

theorem quotaMtos_stored (limited : size ≠ none ∨ count ≠ none) :
    quotaMtos (Stored.limits size count).text = .ok (sizeWord size, countWord count) := by
  have sizeOne : ∀ text, size.map Printed.text = some text → OneComponent text := by
    intro text equal
    obtain ⟨limit, _, rfl⟩ := Option.map_eq_some_iff.mp equal
    exact limit.oneComponent_text
  have counted : (count.map fun count => spellNat count.toNat) =
      (count.map BitVec.toNat).map spellNat := by
    rw [Option.map_map]
    rfl
  have sized : textWord (size.map Printed.text) = size.elim 0 Printed.word := by
    cases size with
    | none => rfl
    | some limit => exact limit.strtoll_text
  rw [Stored.text, counted, quotaMtos_limitsText sizeOne (oneComponent_map _), textWord_spellNat,
    stored_limitWord, sized, sizeWord, countWord]
  rw [Option.map_map]
  exact limited.imp (mt Option.map_eq_none_iff.mp) (mt Option.map_eq_none_iff.mp)

end Words

/-! ## Where the engines agree -/

section Agreement

variable {size : Option Printed} {count : Option (BitVec 64)} {s n : Nat}

theorem alike_limits_iff (usageSmall : s < 2 ^ 63) :
    Alike (Stored.limits size count).text s n ↔ (size ≠ none ∨ count ≠ none) ∧
      verdict (size.elim (some false) (Printed.exceeds s)) (countExceeds (BitVec.ofNat 32 n) count) =
        some (if limitOver (sizeWord size) s || limitOver (countWord count) n then -1 else 0) := by
  by_cases limited : size ≠ none ∨ count ≠ none
  · rw [and_iff_right limited, ← decided_qcalc, Alike, quotaMtos_stored size count limited]
    constructor
    · intro given
      obtain ⟨limits, percentage, equal, result⟩ := given
      rw [← Except.ok.inj equal, overQuota_eq _ usageSmall] at result
      rw [result, decided, Option.map_some]
    · intro result
      obtain ⟨⟨value, percentage⟩, found, equal⟩ := Option.map_eq_some_iff.mp result
      refine ⟨_, percentage, rfl, ?_⟩
      rw [found, overQuota_eq _ usageSmall, ← equal]
  · refine iff_of_false ?_ fun both => limited both.1
    push Not at limited
    rw [limited.1, limited.2]
    intro given
    obtain ⟨limits, percentage, equal, _⟩ := given
    have empty : quotaMtos (Stored.limits none none).text = .error .outOfBounds :=
      quotaMtos_error fun begun => begun.1 rfl
    rw [empty] at equal
    cases equal

theorem alike_noquota (usageSmall : s < 2 ^ 63) : Alike Stored.noquota.text s n := by
  refine ⟨(0, 0), 0, by decide, ?_⟩
  rw [overQuota_eq _ usageSmall]
  rfl

theorem countOver_some {limit : BitVec 64} (messagesSmall : n < 2 ^ 32) :
    countExceeds (BitVec.ofNat 32 n) (some limit) = exceeds limit.toNat n := by
  rw [countExceeds, Option.elim_some, BitVec.toNat_ofNat, Nat.mod_eq_of_lt messagesSmall]

/-! ### Limits for both engines -/

theorem exceeds_of_lt {value : Nat} (small : value < 2 ^ 63) (usage : Int) :
    exceeds value usage = some (decide ((value : Int) < usage)) := by
  rw [exceeds, if_neg]
  rw [longMax]
  omega

theorem sizeWord_whole {digits : Nat} {double} (positive : 0 < digits) (small : digits < 2 ^ 63) :
    sizeWord (some (.whole false digits double)) = BitVec.ofNat 64 digits := by
  have word : (Printed.whole false digits double).word = limitWord (some digits) := by
    rw [Printed.word, limitWord, if_neg Bool.false_ne_true, Option.getD_some,
      max_eq_right]
    simp only [longMin, longMax]
    omega
  rw [sizeWord, Option.elim_some, word, stored_limitWord, limitWord_of_lt]
  · rfl
  · intro value equal
    rwa [← Option.some.inj equal]

theorem exceeds_size_of_common (usageSmall : s < 2 ^ 63)
    (common : ∀ limit, size = some limit → limit.Common)
    (apart : ∀ limit, size = some limit → limit.Apart s) :
    size.elim (some false) (Printed.exceeds s) = some (limitOver (sizeWord size) s) := by
  cases size with
  | none => rfl
  | some limit =>
      cases limit with
      | whole minus digits double =>
          obtain ⟨rfl, positive, small⟩ := common _ rfl
          have away : s ≠ digits := by
            intro equal
            have zero : (digits : Int) ≠ 0 := by omega
            exact apart _ rfl zero (congrArg Nat.cast equal)
          rw [sizeWord_whole positive small, limitOver_ofNat positive small usageSmall away]
          exact exceeds_of_lt small s
      | infinite minus | notANumber minus => rfl

theorem exceeds_count_of_common (messagesSmall : n < 2 ^ 32)
    (common : ∀ limit, count = some limit → 0 < limit.toNat ∧ limit.toNat < 2 ^ 63)
    (apart : ∀ limit, count = some limit → ApartFrom n limit.toNat) :
    countExceeds (BitVec.ofNat 32 n) count = some (limitOver (countWord count) n) := by
  cases count with
  | none => rfl
  | some limit =>
      obtain ⟨positive, small⟩ := common _ rfl
      have away : n ≠ limit.toNat := by
        intro equal
        have zero : (limit.toNat : Int) ≠ 0 := by omega
        exact apart _ rfl zero (congrArg Nat.cast equal)
      have word : countWord (some limit) = BitVec.ofNat 64 limit.toNat := by
        rw [countWord, limitWord_of_lt]
        · rfl
        · intro value equal
          rwa [← Option.some.inj equal]
      rw [countOver_some messagesSmall, word, exceeds_of_lt small,
        limitOver_ofNat positive small (by omega) away]

theorem Stored.Common.agrees {stored : Stored} (common : stored.Common) : stored.Agrees := by
  intro s n usageSmall messagesSmall apart
  cases stored with
  | noquota => exact alike_noquota usageSmall
  | limits size count =>
      obtain ⟨limited, sizes, counts⟩ := common
      rw [alike_limits_iff usageSmall, exceeds_size_of_common usageSmall sizes apart.size,
        exceeds_count_of_common messagesSmall counts apart.count]
      refine ⟨limited, ?_⟩
      rw [verdict, Option.bind_some, Option.map_some]
      cases limitOver (sizeWord size) s <;> rfl

/-! ### Limits that tell the engines apart -/

theorem exceeds_eq_some {value : Nat} {usage : Int} {result : Bool}
    (found : exceeds value usage = some result) : value < 2 ^ 63 := by
  by_contra large
  rw [exceeds, if_pos] at found
  · cases found
  · rw [longMax]
    omega

theorem exceeds_of_less {value : Nat} (small : value < 2 ^ 63) {usage : Int}
    (less : (value : Int) < usage) : exceeds value usage = some true := by
  rw [exceeds_of_lt small, decide_eq_true less]

theorem verdict_eq_some {first second : Option Bool} {result : Int}
    (found : verdict first second = some result) :
    first = some true ∧ result = -1 ∨
      first = some false ∧
        ∃ exceeded, second = some exceeded ∧ result = if exceeded then -1 else 0 := by
  obtain ⟨first, rfl, rest⟩ := Option.bind_eq_some_iff.mp found
  cases first with
  | true => exact .inl ⟨rfl, (Option.some.inj rest).symm⟩
  | false =>
      obtain ⟨exceeded, known, equal⟩ := Option.map_eq_some_iff.mp rest
      exact .inr ⟨rfl, exceeded, known, equal.symm⟩

/-- The largest `off_t` is not a double. -/
theorem not_double_max :
    ¬∃ mantissa exponent, mantissa < 2 ^ 53 ∧ 2 ^ 63 - 1 = mantissa * 2 ^ exponent := by
  intro given
  obtain ⟨mantissa, exponent, small, equal⟩ := given
  cases exponent with
  | zero => omega
  | succ exponent =>
      have even : mantissa * 2 ^ (exponent + 1) = mantissa * 2 ^ exponent * 2 := by
        rw [pow_succ, Nat.mul_assoc]
      omega

/-- The daemon takes a size below one for none, or for a size that no usage reaches. -/
theorem limitOver_notCommon {minus : Bool} {digits : Nat} (double)
    (notCommon : ¬(minus = false ∧ 0 < digits)) (small : digits < 2 ^ 63 - 1) :
    limitOver (sizeWord (some (.whole minus digits double))) (digits + 1) = false := by
  by_cases zero : digits = 0
  · subst zero
    cases minus <;> rfl
  · cases minus with
    | false => exact absurd ⟨rfl, Nat.pos_of_ne_zero zero⟩ notCommon
    | true =>
        have word : (Printed.whole true digits double).word = BitVec.ofInt 64 (-digits) := by
          rw [Printed.word, if_pos rfl, min_eq_right, max_eq_right]
          · rw [longMin]
            omega
          · rw [longMax]
            omega
        have value : (BitVec.ofInt 64 (-digits)).toNat = 2 ^ 64 - digits := by
          rw [BitVec.toNat_ofInt]
          omega
        rw [sizeWord, Option.elim_some, word, stored]
        split
        · rw [limitOver, Bool.and_eq_false_iff]
          refine .inr (decide_eq_false fun below => ?_)
          rw [BitVec.le_def, value, BitVec.toNat_ofNat, Nat.mod_eq_of_lt (by omega)] at below
          omega
        · rfl

theorem apartFrom_zero (limit : Int) : ApartFrom 0 limit := by
  intro configured equal
  exact configured equal.symm

theorem Printed.apart_zero (limit : Printed) : limit.Apart 0 := by
  cases limit with
  | whole minus digits double => exact apartFrom_zero _
  | infinite minus | notANumber minus => trivial

theorem apart_above {minus : Bool} {digits : Nat} {double} :
    (Printed.whole minus digits double).Apart (digits + 1) := by
  intro configured
  cases minus with
  | false =>
      rw [if_neg Bool.false_ne_true]
      omega
  | true =>
      rw [if_pos rfl]
      omega

theorem Stored.Agrees.common_size (agrees : (Stored.limits size count).Agrees)
    (found : ∃ exceeded, size.elim (some false) (Printed.exceeds 0) = some exceeded) :
    ∀ limit, size = some limit → limit.Common := by
  intro limit equal
  subst equal
  cases limit with
  | whole minus digits double =>
      obtain ⟨exceeded, known⟩ := found
      have small : digits < 2 ^ 63 := exceeds_eq_some known
      have less : digits ≠ 2 ^ 63 - 1 := fun equal => not_double_max (equal ▸ double)
      by_contra notCommon
      have apart : Stored.Apart (digits + 1) 0 (some (.whole minus digits double)) count :=
        ⟨fun limit equal => Option.some.inj equal ▸ apart_above, fun _ _ => apartFrom_zero _⟩
      have alike := agrees (digits + 1) 0 (by omega) (by decide) apart
      have above : Printed.exceeds (digits + 1 : Nat) (.whole minus digits double) = some true :=
        exceeds_of_less small (by omega)
      have unlimited := limitOver_notCommon double
        (fun both => notCommon ⟨both.1, both.2, small⟩) (by omega)
      rw [alike_limits_iff (by omega), Option.elim_some, above, unlimited, limitOver_unused] at alike
      exact absurd (Option.some.inj alike.2) (by decide)
  | infinite minus | notANumber minus => trivial

theorem Stored.Agrees.common_count (agrees : (Stored.limits size count).Agrees)
    (sizes : size.elim (some false) (Printed.exceeds 0) = some false)
    (found : ∃ exceeded, countExceeds 0 count = some exceeded) :
    ∀ limit, count = some limit → 0 < limit.toNat ∧ limit.toNat < 2 ^ 63 := by
  intro limit equal
  subst equal
  obtain ⟨exceeded, known⟩ := found
  have small : limit.toNat < 2 ^ 63 := exceeds_eq_some known
  refine ⟨?_, small⟩
  by_contra notPositive
  have zero : limit = 0 := BitVec.eq_of_toNat_eq (Nat.le_zero.mp (Nat.not_lt.mp notPositive))
  subst zero
  have apart : Stored.Apart 0 1 size (some 0) := by
    refine ⟨fun limit _ => limit.apart_zero, fun limit equal configured => ?_⟩
    rw [← Option.some.inj equal] at configured
    exact absurd rfl configured
  have alike := agrees 0 1 (by decide) (by decide) apart
  have unlimited : countWord (some 0) = 0 := by decide
  have above : countExceeds (BitVec.ofNat 32 1) (some 0) = some true := by decide
  have none : size.elim (some false) (Printed.exceeds (0 : Nat)) = some false := sizes
  rw [alike_limits_iff (by decide), none, above, unlimited, limitOver_absent, limitOver_unused]
    at alike
  exact absurd (Option.some.inj alike.2) (by decide)

theorem Stored.Agrees.common {stored : Stored} (agrees : stored.Agrees) : stored.Common := by
  cases stored with
  | noquota => trivial
  | limits size count =>
      have apart : Stored.Apart 0 0 size count :=
        ⟨fun limit _ => limit.apart_zero, fun _ _ => apartFrom_zero _⟩
      have alike := agrees 0 0 (by decide) (by decide) apart
      rw [alike_limits_iff (by decide), limitOver_unused, limitOver_unused] at alike
      obtain ⟨limited, result⟩ := alike
      cases verdict_eq_some result with
      | inl exceeded => exact absurd exceeded.2 (by decide)
      | inr both =>
          obtain ⟨sizes, exceeded, counts, _⟩ := both
          exact ⟨limited, agrees.common_size ⟨false, sizes⟩,
            agrees.common_count sizes ⟨exceeded, counts⟩⟩

end Agreement

/-- The engines agree on exactly the quotas whose limits are positive and fit `off_t`, and there
is one. -/
theorem quotaEngines_agree_iff (stored : Stored) : stored.Agrees ↔ stored.Common :=
  ⟨Stored.Agrees.common, Stored.Common.agrees⟩

/-- `0S` is unlimited for the daemon, and over for `qcalc` once there is a byte. -/
theorem quotaEngines_zero :
    ¬∀ stored : Stored, stored.Agrees := by
  intro agrees
  have zero : ∃ mantissa exponent, mantissa < 2 ^ 53 ∧ 0 = mantissa * 2 ^ exponent :=
    ⟨0, 0, by decide, rfl⟩
  have common := (agrees (.limits (some (.whole false 0 zero)) none)).common
  exact absurd (common.2.1 _ rfl).2.1 (Nat.lt_irrefl 0)

end Vpopmail.Maildirquota

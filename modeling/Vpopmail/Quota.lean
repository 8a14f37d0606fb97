import Vpopmail.Vcdb.PasswdLine

/-! # Quotas

`format_maildirquota` brings a quota into the form in which `pw_shell` keeps it.
-/

namespace Vpopmail

open Text Buffer Vcdb

/-- The operations on `double` that `format_maildirquota` uses: `atof`, products
with whole numbers, the comparison with `-1.0` and the conversion `%.0f`. -/
structure Doubles where
  Value : Type
  minusOne : Value
  atof : List Char → Value
  times : Value → Nat → Value
  isMinusOne : Value → Bool
  print : Value → List Char

/-- `tempquota`. -/
def tempquotaSize : Nat := 128

/-- The limits found so far. -/
structure QuotaLimits (doubles : Doubles) where
  size : doubles.Value
  count : Int

/-- The tokens of successive `strtok` calls, each of which consumes a character. -/
def strtokRounds (delimiter : Char → Bool) : (rounds : Nat) → List Char → List (List Char)
  | 0, _ => []
  | rounds + 1, text =>
      match strtok delimiter text with
      | none => []
      | some (token, rest) => token :: strtokRounds delimiter rounds rest

/-- `if (p[i] == upper || p[i] == lower) p[i--] = 0`. -/
def dropSuffix (upper lower : Char) (text : List Char) : List Char :=
  if text.getLast? = some upper ∨ text.getLast? = some lower then text.dropLast else text

namespace QuotaLimits

variable {doubles : Doubles}

/-- One token of the quota. When stripping has used it up, its size is zero,
whatever `p[-1]` makes a multiple of it. -/
def read (limits : QuotaLimits doubles) (token : List Char) : QuotaLimits doubles :=
  if token.getLast? = some 'C' then { limits with count := Decimal.atol token }
  else
    let token := dropSuffix 'B' 'b' (dropSuffix 'S' 's' token)
    let size := doubles.atof token
    let size :=
      if token.getLast? = some 'M' ∨ token.getLast? = some 'm' then
        doubles.times size (1024 * 1024)
      else size
    let size :=
      if token.getLast? = some 'K' ∨ token.getLast? = some 'k' then doubles.times size 1024
      else size
    { limits with size := size }

/-- The quota as it is stored. `%lu` takes the count as unsigned. -/
def spell (limits : QuotaLimits doubles) : List Char :=
  let count := Decimal.spellNat (limits.count % 2 ^ 64).toNat
  if limits.count = -1 then
    if doubles.isMinusOne limits.size then [] else doubles.print limits.size ++ ['S']
  else if doubles.isMinusOne limits.size then count ++ ['C']
  else doubles.print limits.size ++ ['S', ','] ++ count ++ ['C']

end QuotaLimits

/-- `format_maildirquota`. Its result has to fit `tempquota`. -/
def formatMaildirquota (doubles : Doubles) (quota : List Char) : Checked (List Char) :=
  if quota = "NOQUOTA".toList then .ok quota
  else
    let text := quota.take (tempquotaSize - 1)
    let tokens := strtokRounds (· = ',') text.length text
    let limits : QuotaLimits doubles := tokens.foldl .read ⟨doubles.minusOne, -1⟩
    if limits.spell.length < tempquotaSize then .ok limits.spell else .error .outOfBounds

/-! ## Stored quotas -/

theorem plain_spellNat (value : Nat) : Vcdb.Plain (Decimal.spellNat value) :=
  plain_spellInt (.ofNat value)

theorem QuotaLimits.plain_spell {doubles : Doubles}
    (printed : ∀ value, Vcdb.Plain (doubles.print value)) (limits : QuotaLimits doubles) :
    Vcdb.Plain limits.spell := by
  have size := printed limits.size
  have count := plain_spellNat (limits.count % 2 ^ 64).toNat
  have unit : ∀ text ∈ [['S'], ['C'], ['S', ',']], Vcdb.Plain text := by decide
  simp only [List.forall_mem_cons] at unit
  rw [spell]
  split
  · split
    · decide
    · exact plain_append size unit.1
  · split
    · exact plain_append count unit.2.1
    · exact plain_append (plain_append (plain_append size unit.2.2.1) count) unit.2.1

/-- A stored quota shifts no field of the line that it is printed into. -/
theorem ensures_plain_formatMaildirquota {doubles : Doubles}
    (printed : ∀ value, Vcdb.Plain (doubles.print value)) (quota : List Char) :
    Ensures (formatMaildirquota doubles quota) Vcdb.Plain := by
  rw [formatMaildirquota]
  split
  · rename_i unlimited
    apply ensures_ok
    rw [unlimited]
    decide
  · simp only
    split
    · exact ensures_ok (QuotaLimits.plain_spell printed _)
    · exact ⟨fun _ impossible => nomatch impossible⟩

end Vpopmail

import Vpopmail.Quota
import Vpopmail.QuotaReading

/-! # Canonical quotas

The form in which `format_maildirquota` leaves a quota whose limits are whole numbers, and what
`quota_mtos` reads from it.
-/

namespace Vpopmail.Maildirquota

open Text Decimal

/-- A limit of bytes, a limit of messages, or both. -/
def canonicalText : (size count : Option Nat) → List Char
  | none, none => []
  | some size, none => spellNat size ++ ['S']
  | none, some count => spellNat count ++ ['C']
  | some size, some count => spellNat size ++ ['S', ','] ++ spellNat count ++ ['C']

/-- What is read of a number, which ends at the largest `long long`. -/
def limitWord (limit : Option Nat) : BitVec 64 :=
  BitVec.ofInt 64 (min longMax (limit.getD 0 : Nat))

theorem limitWord_of_lt {limit : Option Nat}
    (small : ∀ value, limit = some value → value < 2 ^ 63) :
    limitWord limit = BitVec.ofNat 64 (limit.getD 0) := by
  have below : limit.getD 0 < 2 ^ 63 := by
    cases limit with
    | none => exact Nat.two_pow_pos 63
    | some value => exact small value rfl
  rw [limitWord, min_eq_right (by rw [longMax]; omega)]
  exact BitVec.ofInt_natCast 64 _

theorem limitWord_ne (limit : Option Nat) : limitWord limit ≠ -1 := by
  intro equal
  have value := congrArg BitVec.toInt equal
  rw [limitWord, BitVec.toInt_ofInt, Int.bmod_eq_of_le] at value
  · have minus : (-1 : BitVec 64).toInt = -1 := by decide
    rw [minus] at value
    simp only [longMax] at value
    omega
  · simp only [longMax]
    omega
  · simp only [longMax]
    omega

theorem stored_limitWord (limit : Option Nat) : stored (limitWord limit) = limitWord limit :=
  (stored_eq_iff _).mpr (limitWord_ne limit)

/-! ## Components of sizes and of counts -/

/-- The texts of a size and of a count, with their kinds. -/
def limitsText : (size count : Option (List Char)) → List Char
  | none, none => []
  | some size, none => size ++ ['S']
  | none, some count => count ++ ['C']
  | some size, some count => size ++ ['S', ','] ++ count ++ ['C']

/-- A text that stands in one component. -/
structure OneComponent (text : List Char) : Prop where
  nonempty : text ≠ []
  free : Free ',' text

/-- What is read of a text, zero if there is none. -/
def textWord (text : Option (List Char)) : BitVec 64 := (text.map strtoll).getD 0

section Components

variable {size count : Option (List Char)}

theorem OneComponent.free_kind {text : List Char} (one : OneComponent text) {kind : Char}
    (notComma : ',' ≠ kind) : Free ',' (text ++ [kind]) := by
  rw [free_append, free_cons]
  exact ⟨one.free, notComma, free_nil ','⟩

theorem endsIn_append (kind last : Char) (text : List Char) :
    endsIn kind (text ++ [last]) = decide (last = kind) := by
  rw [endsIn, List.getLast?_concat]
  exact decide_eq_decide.mpr (Option.some.injEq _ _).to_iff

theorem strtoll_append {kind : Char} (foreign : Foreign kind) (text : List Char) :
    strtoll (text ++ [kind]) = strtoll text := by
  rw [strtoll, strtol_append_cons foreign, strtoll]

theorem components_limitsText (sizeOne : ∀ text, size = some text → OneComponent text)
    (countOne : ∀ text, count = some text → OneComponent text)
    (limited : size ≠ none ∨ count ≠ none) :
    components (limitsText size count) =
      (size.map fun text => text ++ ['S']).toList ++
        (count.map fun text => text ++ ['C']).toList := by
  cases size with
  | none =>
      cases count with
      | none => exact absurd limited (by decide)
      | some count => exact List.splitOn_eq_singleton ((countOne count rfl).free_kind (by decide))
  | some size =>
      have free := (sizeOne size rfl).free_kind (by decide : ',' ≠ 'S')
      cases count with
      | none => exact List.splitOn_eq_singleton free
      | some count =>
          have text : limitsText (some size) (some count) =
              (size ++ ['S']) ++ ',' :: (count ++ ['C']) := by
            simp only [limitsText, List.append_assoc, List.cons_append, List.nil_append]
          rw [text, components_append free, components,
            List.splitOn_eq_singleton ((countOne count rfl).free_kind (by decide))]
          rfl

theorem limitsText_begun (sizeOne : ∀ text, size = some text → OneComponent text)
    (countOne : ∀ text, count = some text → OneComponent text)
    (limited : size ≠ none ∨ count ≠ none) :
    limitsText size count ≠ [] ∧ (limitsText size count).head? ≠ some ',' := by
  have begins : ∀ {text : List Char}, OneComponent text → ∀ rest : List Char,
      text ++ rest ≠ [] ∧ (text ++ rest).head? ≠ some ',' := by
    intro text one rest
    obtain ⟨char, tail, rfl⟩ := List.exists_cons_of_ne_nil one.nonempty
    refine ⟨List.cons_ne_nil _ _, fun comma => ?_⟩
    exact (free_cons.mp one.free).1 (Option.some.inj comma).symm
  cases size with
  | none =>
      cases count with
      | none => exact absurd limited (by decide)
      | some count => exact begins (countOne count rfl) _
  | some size =>
      cases count with
      | none => exact begins (sizeOne size rfl) _
      | some count =>
          rw [limitsText, List.append_assoc, List.append_assoc]
          exact begins (sizeOne size rfl) _

theorem quotaMtos_limitsText (sizeOne : ∀ text, size = some text → OneComponent text)
    (countOne : ∀ text, count = some text → OneComponent text)
    (limited : size ≠ none ∨ count ≠ none) :
    quotaMtos (limitsText size count) =
      .ok (stored (textWord size), stored (textWord count)) := by
  have sizeRead : ∀ text, strtoll (text ++ ['S']) = strtoll text := strtoll_append (by decide)
  have countRead : ∀ text, strtoll (text ++ ['C']) = strtoll text := strtoll_append (by decide)
  have sized : number (sizeComponent (components (limitsText size count))) = textWord size := by
    rw [components_limitsText sizeOne countOne limited]
    cases size <;> cases count <;>
      simp [sizeComponent, number, textWord, endsIn_append, sizeRead, Option.filter_some]
  have counted : number (countComponent (components (limitsText size count))) =
      textWord count := by
    rw [components_limitsText sizeOne countOne limited]
    cases size <;> cases count <;>
      simp [countComponent, number, textWord, endsIn_append, countRead]
  rw [quotaMtos_eq (limitsText_begun sizeOne countOne limited), sized, counted]

end Components

/-! ## Whole numbers -/

theorem oneComponent_spellNat (value : Nat) : OneComponent (spellNat value) where
  nonempty := spellNat_ne_nil value
  free := not_mem_spellInt (by decide) (by decide) (.ofNat value)

theorem strtoll_spellNat (value : Nat) : strtoll (spellNat value) = limitWord (some value) := by
  have read := atol_spellInt_append (.ofNat value) stops_nil
  rw [List.append_nil] at read
  rw [strtoll, limitWord, ← atol, ← spellInt, read, Option.getD_some]
  congr 1
  simp only [longMin, longMax, Int.ofNat_eq_natCast]
  omega

theorem textWord_spellNat (limit : Option Nat) :
    textWord (limit.map spellNat) = limitWord limit := by
  cases limit with
  | none => decide
  | some value => exact strtoll_spellNat value

theorem canonicalText_eq (size count : Option Nat) :
    canonicalText size count = limitsText (size.map spellNat) (count.map spellNat) := by
  cases size <;> cases count <;> rfl

theorem oneComponent_map (limit : Option Nat) :
    ∀ text, limit.map spellNat = some text → OneComponent text := by
  intro text spelled
  obtain ⟨value, _, rfl⟩ := Option.map_eq_some_iff.mp spelled
  exact oneComponent_spellNat value

theorem quotaMtos_canonicalText {size count : Option Nat}
    (limited : size ≠ none ∨ count ≠ none) :
    quotaMtos (canonicalText size count) = .ok (limitWord size, limitWord count) := by
  rw [canonicalText_eq, quotaMtos_limitsText (oneComponent_map size) (oneComponent_map count),
    textWord_spellNat, textWord_spellNat, stored_limitWord, stored_limitWord]
  exact limited.imp (mt Option.map_eq_none_iff.mp) (mt Option.map_eq_none_iff.mp)

end Vpopmail.Maildirquota

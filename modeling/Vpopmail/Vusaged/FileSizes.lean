import Mathlib.Data.List.GetD
import Mathlib.Data.List.Infix
import Mathlib.Order.Bounds.Basic
import Vpopmail.Foundation.Decimal
import Vpopmail.Foundation.Text

/-! # Sizes of messages

The usage daemon and `maildir_parsequota` take the size of a message from the field `,S=`
of its name. The daemon looks in the whole path, reads the number with `strtoll`, and rounds
it up to blocks with `div`, which takes an `int`.
-/

namespace Vpopmail.Vusaged.FileSizes

open Text

/-! ## `directory_filesize` -/

/-- `directory_block_size`, an `int` that the configuration makes positive. -/
abbrev BlockSize := { size : Nat // 1 ≤ size ∧ size < 2 ^ 31 }

structure Settings where
  useMaildirppFormat : Bool
  blockSize : BlockSize

/-- What `stat` says about a file. -/
inductive Stat
  | found (size : BitVec 64)
  | missing
  | failed

/-- The size of a file whose name does not tell it. -/
def statSize : Stat → BitVec 64
  | .found size => size
  | .missing => 0
  | .failed => -1

/-- The loop over `h`, with the end `t` of the field in front of it. It stops at a field
that assigns to `S`. -/
def scanFields (file : List Char) : (h t : Nat) → Option (List Char)
  | 0, _ => none
  | h + 1, t =>
      if file.getD (h + 1) nul = ',' then
        if t ≤ h + 1 then scanFields file h t
        else if file.getD (h + 2) nul = nul ∨ file.getD (h + 2) nul = ',' then
          scanFields file h h
        else if file.getD (h + 2) nul ≠ 'S' ∨ file.getD (h + 3) nul ≠ '=' then
          scanFields file h h
        else some (file.drop (h + 4))
      else scanFields file h t

/-- `div` on the size, which becomes an `int`. -/
def roundBlocks (blockSize : BlockSize) (size : BitVec 64) : BitVec 64 :=
  if blockSize.val > 1 then
    let numer := (size.setWidth 32).toInt
    let quot := numer.tdiv blockSize.val
    let rem := numer.tmod blockSize.val
    let whole := BitVec.ofInt 64 (quot * blockSize.val)
    if rem ≠ 0 then whole + BitVec.ofNat 64 blockSize.val else whole
  else size

/-- `directory_filesize` of a path whose length is known. -/
def directoryFilesize (settings : Settings) (stat : Stat) (file : List Char) : BitVec 64 :=
  let named := if settings.useMaildirppFormat then scanFields file file.length file.length else none
  match named with
  | none => statSize stat
  | some text =>
      let size := BitVec.ofInt 64 (Decimal.strtol text)
      if size = BitVec.ofInt 64 Decimal.longMax then statSize stat
      else roundBlocks settings.blockSize size

/-! ## `maildir_parsequota` -/

/-- The loop back from `o`, which stops at the directory. -/
def parseBack (n : List Char) : (o : Nat) → Option (List Char)
  | 0 => none
  | o + 1 =>
      if n.getD o nul = '/' then none
      else if n.getD o nul = ',' ∧ n.getD (o + 1) nul = 'S' ∧ n.getD (o + 2) nul = '=' then
        some (n.drop (o + 3))
      else parseBack n o

/-- The loop over the digits. -/
def readUnsigned (s : BitVec 64) : List Char → BitVec 64
  | [] => s
  | char :: rest =>
      if char.isDigit then readUnsigned (s * 10 + BitVec.ofNat 64 (char.toNat - '0'.toNat)) rest
      else s

def maildirParsequota (n : List Char) : Option (BitVec 64) :=
  let slash := if n.contains '/' then n.length - (n.rtakeWhile (· ≠ '/')).length - 1 else 0
  let o := slash + ((n.drop slash).takeWhile (· ≠ ':')).length
  (parseBack n (o + 1)).map (readUnsigned 0)

/-! ## The last field of a text -/

def sizeField : List Char := [',', 'S', '=']

/-- What follows the last `,S=`. -/
def lastField : List Char → Option (List Char)
  | [] => none
  | char :: rest =>
      match lastField rest with
      | some field => some field
      | none => if sizeField.isPrefixOf (char :: rest) then some (rest.drop 2) else none

/-- The last field that starts before a position. -/
def fieldBefore (text : List Char) : (position : Nat) → Option (List Char)
  | 0 => none
  | position + 1 =>
      if sizeField.isPrefixOf (text.drop position) then some (text.drop (position + 3))
      else fieldBefore text position

theorem fieldBefore_cons (char : Char) (rest : List Char) (position : Nat) :
    fieldBefore (char :: rest) (position + 1) =
      match fieldBefore rest position with
      | some field => some field
      | none => if sizeField.isPrefixOf (char :: rest) then some (rest.drop 2) else none := by
  induction position with
  | zero => rfl
  | succ position induction =>
      change (if sizeField.isPrefixOf (rest.drop position) then some (rest.drop (position + 3))
        else fieldBefore (char :: rest) (position + 1)) = _
      rw [induction, fieldBefore]
      cases sizeField.isPrefixOf (rest.drop position) <;> rfl

theorem fieldBefore_length (text : List Char) : fieldBefore text text.length = lastField text := by
  induction text with
  | nil => rfl
  | cons char rest induction =>
      rw [List.length_cons, fieldBefore_cons, induction]
      rfl

theorem isPrefixOf_sizeField_iff (text : List Char) (position : Nat) :
    sizeField.isPrefixOf (text.drop position) = true ↔
      text.getD position nul = ',' ∧ text.getD (position + 1) nul = 'S' ∧
        text.getD (position + 2) nul = '=' := by
  have at_ : ∀ offset, text.getD (position + offset) nul = (text.drop position).getD offset nul := by
    intro offset
    simp [List.getD_eq_getElem?_getD]
  rw [← Nat.add_zero position, at_ 0, Nat.add_assoc, Nat.add_assoc, Nat.zero_add, Nat.zero_add,
    at_ 1, at_ 2, Nat.add_zero]
  rcases text.drop position with _ | ⟨first, _ | ⟨second, _ | ⟨third, rest⟩⟩⟩
  · decide
  · simp [sizeField, List.isPrefixOf, nul]
  · simp [sizeField, List.isPrefixOf, nul]
  · simp only [sizeField, List.isPrefixOf, Bool.and_true, Bool.and_eq_true, beq_iff_eq]
    constructor
    · rintro ⟨rfl, rfl, rfl⟩
      exact ⟨rfl, rfl, rfl⟩
    · rintro ⟨comma, letter, equals⟩
      exact ⟨comma.symm, letter.symm, equals.symm⟩

/-! ## The daemon's loop -/

/-- The loop finds the last field. A comma is passed over only in front of another one. -/
theorem scanFields_eq (char : Char) (rest : List Char) (h t : Nat)
    (behind : h < t ∨ h = t ∧ (char :: rest).getD (h + 1) nul = ',') :
    scanFields (char :: rest) h t = fieldBefore rest h := by
  induction h generalizing t with
  | zero => rfl
  | succ h induction =>
      have spelled := isPrefixOf_sizeField_iff rest h
      have shifted : ∀ position, (char :: rest).getD (position + 1) nul = rest.getD position nul :=
        fun position => rfl
      rw [scanFields, fieldBefore, shifted, shifted, shifted]
      by_cases comma : rest.getD h nul = ','
      · rw [if_pos comma]
        by_cases passed : t ≤ h + 1
        · have again : h + 1 = t ∧ rest.getD (h + 1) nul = ',' := by
            rcases behind with later | same
            · exact absurd passed (Nat.not_le_of_lt later)
            · exact same
          have unspelled : ¬sizeField.isPrefixOf (rest.drop h) = true := by
            rw [spelled, again.2]
            exact fun parts => absurd parts.2.1 (by decide)
          rw [if_pos passed, if_neg unspelled]
          exact induction t (.inl (by omega))
        · rw [if_neg passed]
          by_cases field : sizeField.isPrefixOf (rest.drop h) = true
          · have parts := spelled.mp field
            rw [parts.2.1, parts.2.2, if_neg (by decide), if_neg (by decide), if_pos field]
            rfl
          · have next : scanFields (char :: rest) h h = fieldBefore rest h :=
              induction h (.inr ⟨rfl, comma⟩)
            rw [if_neg field, next]
            split
            · rfl
            · rename_i assigned
              rw [if_pos]
              by_contra named
              rw [not_or, not_not, not_not] at named
              exact field (spelled.mpr ⟨comma, named⟩)
      · have unspelled : ¬sizeField.isPrefixOf (rest.drop h) = true := by
          rw [spelled]
          exact fun parts => comma parts.1
        rw [if_neg comma, if_neg unspelled]
        apply induction t
        rcases behind with later | same
        · exact .inl (by omega)
        · exact .inl (by omega)

theorem scanFields_length (file : List Char) :
    scanFields file file.length file.length = lastField file.tail := by
  cases file with
  | nil => rfl
  | cons char rest =>
      have ended : (char :: rest).getD (rest.length + 1) nul = nul := by
        simp [List.getD_eq_getElem?_getD]
      rw [List.length_cons, scanFields, ended, if_neg (by decide),
        scanFields_eq char rest rest.length _ (.inl (Nat.lt_succ_self _)), fieldBefore_length]
      rfl

theorem directoryFilesize_eq (blockSize : BlockSize) (stat : Stat) (file : List Char) :
    directoryFilesize ⟨true, blockSize⟩ stat file =
      match lastField file.tail with
      | none => statSize stat
      | some text =>
          let size := BitVec.ofInt 64 (Decimal.strtol text)
          if size = BitVec.ofInt 64 Decimal.longMax then statSize stat
          else roundBlocks blockSize size := by
  rw [directoryFilesize, if_pos rfl, scanFields_length]

/-! ## Paths of messages -/

/-- A path as the daemon makes it of a directory and the name of a file. -/
structure MaildirFile where
  directory : List Char
  name : List Char
  slashFree : Free '/' name

namespace MaildirFile

variable (file : MaildirFile)

def path : List Char := file.directory ++ '/' :: file.name

/-- The name without its flags. -/
def base : List Char := file.name.takeWhile (· ≠ ':')

/-- The colon with the flags. -/
def flags : List Char := file.name.dropWhile (· ≠ ':')

theorem base_append_flags : file.base ++ file.flags = file.name :=
  List.takeWhile_append_dropWhile

theorem base_slashFree : Free '/' file.base :=
  fun member => file.slashFree ((List.takeWhile_prefix _).subset member)

/-- The flags are empty or start with the colon. -/
theorem head_flags (char : Char) (rest : List Char) (given : file.flags = char :: rest) :
    char = ':' := by
  have colon := List.head?_dropWhile_not (fun char => decide (char ≠ ':')) file.name
  rw [flags] at given
  rw [given] at colon
  simpa using colon

end MaildirFile

/-! ## The loop of `maildir_parsequota` -/

/-- A field in front of the flags ends in front of them. -/
theorem isPrefixOf_drop_append {base flags : List Char}
    (colon : ∀ char rest, flags = char :: rest → char = ':') {position : Nat}
    (inside : position < base.length) :
    sizeField.isPrefixOf ((base ++ flags).drop position) =
      sizeField.isPrefixOf (base.drop position) := by
  rw [List.drop_append_of_le_length (Nat.le_of_lt inside)]
  rcases spelled : base.drop position with _ | ⟨first, _ | ⟨second, _ | ⟨third, rest⟩⟩⟩
  · have none := congrArg List.length spelled
    rw [List.length_drop, List.length_nil] at none
    omega
  · rcases flags with _ | ⟨char, behind⟩
    · rfl
    · rw [colon char behind rfl]
      simp [sizeField, List.isPrefixOf]
  · rcases flags with _ | ⟨char, behind⟩
    · rfl
    · rw [colon char behind rfl]
      simp [sizeField, List.isPrefixOf]
  · simp [sizeField, List.isPrefixOf]

/-- The loop finds the last field of the name in front of the flags. -/
theorem parseBack_eq (front : List Char) {base flags : List Char} (free : Free '/' base)
    (colon : ∀ char rest, flags = char :: rest → char = ':') {position : Nat}
    (inside : position ≤ base.length) :
    parseBack (front ++ '/' :: (base ++ flags)) (front.length + 1 + position) =
      (fieldBefore base position).map (· ++ flags) := by
  induction position with
  | zero =>
      have slash : (front ++ '/' :: (base ++ flags)).getD front.length nul = '/' := by
        simp [List.getD_eq_getElem?_getD]
      rw [Nat.add_zero, parseBack, slash, if_pos rfl]
      rfl
  | succ position induction =>
      have short : position < base.length := inside
      have behind : ∀ offset, (front ++ '/' :: (base ++ flags)).getD
          (front.length + 1 + position + offset) nul =
            (base ++ flags).getD (position + offset) nul := by
        intro offset
        rw [List.append_cons, List.getD_append_right _ _ _ _ (by simp; omega)]
        congr 1
        simp
        omega
      have here : (front ++ '/' :: (base ++ flags)).getD (front.length + 1 + position) nul =
          (base ++ flags).getD position nul := behind 0
      have notSlash : (base ++ flags).getD position nul ≠ '/' := by
        rw [List.getD_append _ _ _ _ short, List.getD_eq_getElem _ _ short]
        exact fun equal => free (equal ▸ List.getElem_mem short)
      have text : (front ++ '/' :: (base ++ flags)).drop (front.length + 1 + position + 3) =
          (base ++ flags).drop (position + 3) := by
        rw [List.append_cons, Nat.add_assoc, List.drop_append, List.drop_of_length_le (by simp)]
        simp
      rw [← Nat.add_assoc, parseBack, here, behind 1, behind 2, text, if_neg notSlash,
        fieldBefore, induction (Nat.le_of_lt short),
        ← isPrefixOf_drop_append colon short]
      by_cases field : sizeField.isPrefixOf ((base ++ flags).drop position) = true
      · rw [if_pos ((isPrefixOf_sizeField_iff _ _).mp field), if_pos field]
        rw [isPrefixOf_drop_append colon short] at field
        have long : 3 ≤ (base.drop position).length :=
          (List.isPrefixOf_iff_prefix.mp field).length_le
        rw [List.length_drop] at long
        rw [List.drop_append_of_le_length (by omega)]
        rfl
      · rw [if_neg (fun parts => field ((isPrefixOf_sizeField_iff _ _).mpr parts)), if_neg field]

theorem readUnsigned_eq (value : Nat) (text : List Char) :
    readUnsigned (BitVec.ofNat 64 value) text =
      BitVec.ofNat 64 (Nat.ofDigitChars 10 (text.takeWhile Char.isDigit) value) := by
  induction text generalizing value with
  | nil => rfl
  | cons char rest induction =>
      rw [readUnsigned]
      by_cases digit : char.isDigit = true
      · have step : BitVec.ofNat 64 value * 10 + BitVec.ofNat 64 (char.toNat - '0'.toNat) =
            BitVec.ofNat 64 (10 * value + (char.toNat - '0'.toNat)) := by
          rw [BitVec.ofNat_add, BitVec.ofNat_mul, BitVec.mul_comm]
          rfl
        rw [if_pos digit, step, induction, List.takeWhile_cons_of_pos digit,
          Nat.ofDigitChars_cons]
      · rw [if_neg digit, List.takeWhile_cons_of_neg digit]
        rfl

theorem maildirParsequota_eq (file : MaildirFile) :
    maildirParsequota file.path =
      (lastField file.base).map fun own => BitVec.ofNat 64 (Decimal.readDigits own) := by
  have slash : file.path.contains '/' = true := by
    simp [MaildirFile.path]
  have position : file.path.length - (file.path.rtakeWhile (· ≠ '/')).length - 1 =
      file.directory.length := by
    rw [MaildirFile.path, rtakeWhile_ne_append_cons file.slashFree, List.length_append,
      List.length_cons]
    omega
  have behind : (file.path.drop file.directory.length).takeWhile (· ≠ ':') =
      '/' :: file.base := by
    rw [MaildirFile.path, List.drop_left, List.takeWhile_cons_of_pos (by decide)]
    rfl
  have digits : ∀ own, readUnsigned 0 (own ++ file.flags) =
      BitVec.ofNat 64 (Decimal.readDigits own) := by
    intro own
    have read := readUnsigned_eq 0 (own ++ file.flags)
    cases given : file.flags with
    | nil =>
        rw [given, List.append_nil] at read
        rw [List.append_nil]
        exact read
    | cons char rest =>
        rw [given, file.head_flags char rest given] at read
        rw [file.head_flags char rest given]
        have foreign : Decimal.Foreign ':' := by decide
        rw [← Decimal.readDigits_append_cons foreign own rest]
        exact read
  rw [maildirParsequota]
  simp only [slash, if_true, position, behind]
  have found := parseBack_eq file.directory file.base_slashFree file.head_flags
    (Nat.le_refl file.base.length)
  rw [file.base_append_flags, fieldBefore_length] at found
  have last : file.path.getD (file.directory.length + 1 + file.base.length) nul ≠ '/' ∧
      file.path.getD (file.directory.length + 1 + file.base.length) nul ≠ ',' := by
    rw [MaildirFile.path, ← file.base_append_flags, List.append_cons, ← List.append_assoc,
      List.getD_append_right _ _ _ _ (by simp; omega)]
    have offset : file.directory.length + 1 + file.base.length -
        (file.directory ++ ['/'] ++ file.base).length = 0 := by
      simp
      omega
    rw [offset]
    cases given : file.flags with
    | nil => decide
    | cons char rest =>
        rw [file.head_flags char rest given]
        change ':' ≠ '/' ∧ ':' ≠ ','
        decide
  rw [List.length_cons, Nat.add_comm file.base.length, ← Nat.add_assoc, parseBack, if_neg last.1,
    if_neg (fun parts => last.2 parts.1), MaildirFile.path, found, Option.map_map]
  congr 1
  funext own
  exact digits own

/-! ## Rounding -/

/-- The least multiple of the block size that is not below the size. -/
def Rounded (blockSize : BlockSize) (size result : BitVec 64) : Prop :=
  IsLeast { multiple : Nat | blockSize.val ∣ multiple ∧ size.toNat ≤ multiple } result.toNat

theorem isLeast_multiple_iff {block : Nat} (positive : 0 < block) (size multiple : Nat) :
    IsLeast { multiple : Nat | block ∣ multiple ∧ size ≤ multiple } multiple ↔
      block ∣ multiple ∧ size ≤ multiple ∧ multiple < size + block := by
  constructor
  · intro least
    refine ⟨least.1.1, least.1.2, ?_⟩
    by_contra large
    have smaller := least.2 (show multiple - block ∈ _ from
      ⟨Nat.dvd_sub least.1.1 (Nat.dvd_refl block), by omega⟩)
    omega
  · intro within
    rcases within with ⟨divides, above, below⟩
    refine ⟨⟨divides, above⟩, ?_⟩
    intro other multiples
    rcases divides with ⟨blocks, rfl⟩
    rcases multiples with ⟨⟨others, rfl⟩, enough⟩
    by_contra smaller
    have fewer : others < blocks := Nat.lt_of_mul_lt_mul_left (Nat.lt_of_not_le smaller)
    have next : block * (others + 1) ≤ block * blocks := Nat.mul_le_mul_left block fewer
    rw [Nat.mul_succ] at next
    omega

/-- What `div` makes of an `int`. -/
def roundInt (block : Nat) (numer : Int) : Int :=
  numer.tdiv block * block + if numer.tmod block ≠ 0 then (block : Int) else 0

theorem roundBlocks_eq {blockSize : BlockSize} (several : 1 < blockSize.val) (size : BitVec 64) :
    roundBlocks blockSize size =
      BitVec.ofInt 64 (roundInt blockSize.val (size.setWidth 32).toInt) := by
  rw [roundBlocks, if_pos several]
  simp only [roundInt]
  split
  · rw [BitVec.ofInt_add, BitVec.ofInt_natCast]
  · rw [Int.add_zero]

theorem roundInt_ofNat {block : Nat} (positive : 0 < block) (numer : Nat) :
    ∃ multiple : Nat, roundInt block numer = multiple ∧ block ∣ multiple ∧ numer ≤ multiple ∧
      multiple < numer + block := by
  have parts := Nat.div_add_mod' numer block
  have small := Nat.mod_lt numer positive
  by_cases whole : numer % block = 0
  · refine ⟨numer, ?_, Nat.dvd_of_mod_eq_zero whole, Nat.le_refl _, by omega⟩
    rw [roundInt, Int.tmod_eq_emod_of_nonneg (Int.natCast_nonneg _),
      Int.tdiv_eq_ediv_of_nonneg (Int.natCast_nonneg _), if_neg (by omega)]
    exact_mod_cast (by omega : numer / block * block + 0 = numer)
  · refine ⟨numer / block * block + block, ?_, ?_, by omega, by omega⟩
    · rw [roundInt, Int.tmod_eq_emod_of_nonneg (Int.natCast_nonneg _),
        Int.tdiv_eq_ediv_of_nonneg (Int.natCast_nonneg _), if_pos (by omega)]
      exact_mod_cast rfl
    · exact Nat.dvd_add (Nat.dvd_mul_left _ _) (Nat.dvd_refl _)

theorem roundInt_neg (block numer : Nat) :
    roundInt block (-numer) =
      -(numer / block * block : Nat) + if numer % block ≠ 0 then (block : Int) else 0 := by
  rw [roundInt, Int.neg_tdiv, Int.neg_tmod, Int.tmod_eq_emod_of_nonneg (Int.natCast_nonneg _),
    Int.tdiv_eq_ediv_of_nonneg (Int.natCast_nonneg _), Int.neg_mul]
  congr 1
  by_cases whole : numer % block = 0
  · rw [if_neg (by omega), if_neg (by omega)]
  · rw [if_pos (by omega), if_pos whole]

/-- Sizes that an `int` holds are rounded, and negative ones that are whole blocks. -/
def Roundable (blockSize : BlockSize) (size : BitVec 64) : Prop :=
  blockSize.val = 1 ∨ size.toNat < 2 ^ 31 ∨
    2 ^ 64 - 2 ^ 31 ≤ size.toNat ∧ blockSize.val ∣ 2 ^ 64 ∧ blockSize.val ∣ size.toNat

theorem rounded_iff (blockSize : BlockSize) (size : BitVec 64) :
    Rounded blockSize size (roundBlocks blockSize size) ↔ Roundable blockSize size := by
  rcases blockSize with ⟨block, positive, small⟩
  rw [Rounded, isLeast_multiple_iff positive, Roundable]
  rcases Nat.lt_or_ge 1 block with several | single
  · rw [roundBlocks_eq several]
    have wide := size.isLt
    have numer := BitVec.toInt_eq_toNat_cond (size.setWidth 32)
    rw [BitVec.toNat_setWidth] at numer
    simp only
    rcases Nat.lt_or_ge (size.toNat % 2 ^ 32) (2 ^ 31) with low | high
    · rw [if_pos (by omega)] at numer
      rcases roundInt_ofNat positive (size.toNat % 2 ^ 32) with ⟨multiple, equal, divides, above,
        below⟩
      rw [numer, equal, BitVec.ofInt_natCast, BitVec.toNat_ofNat, Nat.mod_eq_of_lt (by omega)]
      constructor
      · intro within
        exact .inr (.inl (by omega))
      · intro fits
        rcases fits with one | less | ⟨large, -⟩
        · omega
        · rw [Nat.mod_eq_of_lt (by omega)] at above below
          exact ⟨divides, above, below⟩
        · omega
    · rw [if_neg (by omega)] at numer
      have parts := Nat.div_add_mod' (2 ^ 32 - size.toNat % 2 ^ 32) block
      have rest := Nat.mod_lt (2 ^ 32 - size.toNat % 2 ^ 32) positive
      have negative : (size.setWidth 32).toInt = -(2 ^ 32 - size.toNat % 2 ^ 32 : Nat) := by
        rw [numer]
        omega
      rw [negative, roundInt_neg, BitVec.toNat_ofInt]
      by_cases whole : (2 ^ 32 - size.toNat % 2 ^ 32) % block = 0
      · rw [if_neg (not_not.mpr whole)]
        have exactly : (2 ^ 32 - size.toNat % 2 ^ 32) / block * block =
            2 ^ 32 - size.toNat % 2 ^ 32 := by omega
        have divides : block ∣ 2 ^ 32 - size.toNat % 2 ^ 32 := Nat.dvd_of_mod_eq_zero whole
        have result : ((-(2 ^ 32 - size.toNat % 2 ^ 32 : Nat) + 0 : Int) %
            (2 ^ 64 : Nat)).toNat = 2 ^ 64 - (2 ^ 32 - size.toNat % 2 ^ 32) := by omega
        rw [exactly, result]
        constructor
        · intro within
          have last : 2 ^ 64 - (2 ^ 32 - size.toNat % 2 ^ 32) = size.toNat := by omega
          refine .inr (.inr ⟨by omega, ?_, last ▸ within.1⟩)
          have sum : 2 ^ 64 = size.toNat + (2 ^ 32 - size.toNat % 2 ^ 32) := by omega
          rw [sum]
          exact Nat.dvd_add (last ▸ within.1) divides
        · intro fits
          rcases fits with one | less | ⟨large, -, same⟩
          · omega
          · omega
          · have last : 2 ^ 64 - (2 ^ 32 - size.toNat % 2 ^ 32) = size.toNat := by omega
            rw [last]
            exact ⟨same, Nat.le_refl _, by omega⟩
      · rw [if_pos whole]
        constructor
        · intro within
          exfalso
          rcases Nat.lt_or_ge ((2 ^ 32 - size.toNat % 2 ^ 32) / block) 1 with none | some
          · have zero : (2 ^ 32 - size.toNat % 2 ^ 32) / block * block = 0 := by
              rw [Nat.lt_one_iff.mp none, Nat.zero_mul]
            rw [zero] at within
            omega
          · have least : block ≤ (2 ^ 32 - size.toNat % 2 ^ 32) / block * block :=
              Nat.le_mul_of_pos_left block some
            omega
        · intro fits
          rcases fits with one | less | ⟨large, power, same⟩
          · omega
          · omega
          · have sum : 2 ^ 64 - size.toNat = 2 ^ 32 - size.toNat % 2 ^ 32 := by omega
            have divides := Nat.dvd_sub power same
            rw [sum] at divides
            exact absurd (Nat.mod_eq_zero_of_dvd divides) whole
  · have one : block = 1 := by omega
    subst one
    rw [roundBlocks, if_neg (Nat.lt_irrefl 1)]
    simp

/-! ## Agreement -/

def wholeSizes : BlockSize := ⟨1, by decide⟩

/-- What a size should be: that of the name where `maildir_parsequota` finds one, else that
of `stat`, and the one of the name in whole blocks. -/
structure Agrees (file : MaildirFile) (blockSize : BlockSize) : Prop where
  same : ∀ stat, directoryFilesize ⟨true, wholeSizes⟩ stat file.path =
    (maildirParsequota file.path).getD (statSize stat)
  rounded : ∀ stat, ∀ size ∈ maildirParsequota file.path,
    Rounded blockSize size (directoryFilesize ⟨true, blockSize⟩ stat file.path)

/-- The condition on the last `,S=` of the path and the last one of the name in front of
its flags: both are missing, or the first one only has a number that `strtoll` cannot hold,
or they have the same number, which is not the greatest `strtoll` can return and can be
rounded. -/
def SameField (file : MaildirFile) (blockSize : BlockSize) : Prop :=
  match lastField file.path.tail, lastField file.base with
  | none, none => True
  | none, some _ => False
  | some text, none => Decimal.strtol text = Decimal.longMax
  | some text, some own =>
      Decimal.strtol text ≠ Decimal.longMax ∧
        BitVec.ofInt 64 (Decimal.strtol text) = BitVec.ofNat 64 (Decimal.readDigits own) ∧
        Roundable blockSize (BitVec.ofNat 64 (Decimal.readDigits own))

theorem strtol_bounds (text : List Char) :
    -2 ^ 63 ≤ Decimal.strtol text ∧ Decimal.strtol text ≤ 2 ^ 63 - 1 := by
  rw [Decimal.strtol, Decimal.longMin, Decimal.longMax]
  omega

theorem ofInt_strtol_eq_iff (text : List Char) :
    BitVec.ofInt 64 (Decimal.strtol text) = BitVec.ofInt 64 Decimal.longMax ↔
      Decimal.strtol text = Decimal.longMax := by
  have bounds := strtol_bounds text
  constructor
  · intro same
    have ints := congrArg BitVec.toInt same
    rw [BitVec.toInt_ofInt, BitVec.toInt_ofInt, Int.bmod_eq_of_le (by omega) (by omega),
      Int.bmod_eq_of_le (by decide) (by decide)] at ints
    exact ints
  · intro same
    rw [same]

/-- No size of a name is that of every `stat`. -/
theorem not_every_stat (size : BitVec 64) : ¬∀ stat, size = statSize stat := by
  intro every
  have zero := every .missing
  rw [every .failed] at zero
  exact absurd zero (by decide)

/-- The daemon and `maildir_parsequota` agree on a path, and the daemon rounds its size,
exactly when the fields they look at have the same number and it can be rounded. -/
theorem filesize_agrees_iff (file : MaildirFile) (blockSize : BlockSize) :
    Agrees file blockSize ↔ SameField file blockSize := by
  have whole : ∀ size, roundBlocks wholeSizes size = size :=
    fun size => if_neg (Nat.lt_irrefl 1)
  have found := maildirParsequota_eq file
  have taken := directoryFilesize_eq
  rw [SameField]
  cases path : lastField file.path.tail with
  | none =>
      cases given : lastField file.base with
      | none =>
          rw [given, Option.map_none] at found
          constructor
          · exact fun _ => trivial
          · intro _
            constructor
            · intro stat
              rw [taken, path, found]
              rfl
            · intro stat size given
              rw [found] at given
              cases given
      | some own =>
          rw [given, Option.map_some] at found
          constructor
          · intro agrees
            apply not_every_stat (BitVec.ofNat 64 (Decimal.readDigits own))
            intro stat
            have same := agrees.same stat
            rw [taken, path, found] at same
            exact same.symm
          · exact fun absent => absent.elim
  | some text =>
      have unsaturated := ofInt_strtol_eq_iff text
      cases given : lastField file.base with
      | none =>
          rw [given, Option.map_none] at found
          constructor
          · intro agrees
            by_contra less
            apply not_every_stat (BitVec.ofInt 64 (Decimal.strtol text))
            intro stat
            have same := agrees.same stat
            rw [taken, path, found] at same
            simp only [unsaturated, if_neg less, whole] at same
            exact same
          · intro saturated
            constructor
            · intro stat
              rw [taken, path, found]
              exact if_pos (unsaturated.mpr saturated)
            · intro stat size member
              rw [found] at member
              cases member
      | some own =>
          rw [given, Option.map_some] at found
          constructor
          · intro agrees
            have less : Decimal.strtol text ≠ Decimal.longMax := by
              intro saturated
              apply not_every_stat (BitVec.ofNat 64 (Decimal.readDigits own))
              intro stat
              have same := agrees.same stat
              rw [taken, path, found] at same
              simp only [unsaturated, if_pos saturated] at same
              exact same.symm
            have same := agrees.same .missing
            have rounded := agrees.rounded .missing _ found
            rw [taken, path] at rounded
            rw [taken, path, found] at same
            simp only [unsaturated, if_neg less, whole] at same rounded
            rw [same] at rounded
            exact ⟨less, same, (rounded_iff _ _).mp rounded⟩
          · intro fields
            rcases fields with ⟨less, same, roundable⟩
            constructor
            · intro stat
              rw [taken, path, found]
              simp only [unsaturated, if_neg less, whole]
              exact same
            · intro stat size member
              rw [found, Option.mem_def, Option.some.injEq] at member
              rw [taken, path]
              simp only [unsaturated, if_neg less]
              rw [same, member]
              exact (rounded_iff _ _).mpr (member ▸ roundable)

/-- A message of 3 GiB, in blocks of 4096 bytes. -/
def largeFile : MaildirFile where
  directory := "/home/ann/Maildir/cur".toList
  name := "1.M1,S=3221225472:2,S".toList
  slashFree := by decide

/-- A size that is a multiple of the block size is not kept when no `int` holds it. -/
theorem not_filesize_agrees :
    ¬∀ (file : MaildirFile) (blockSize : BlockSize), Agrees file blockSize := by
  intro agrees
  have size : maildirParsequota largeFile.path = some 3221225472 := by decide +kernel
  have blocks : directoryFilesize ⟨true, ⟨4096, by decide⟩⟩ .missing largeFile.path =
      BitVec.ofInt 64 (-1073741824) := by decide +kernel
  have rounded := (agrees largeFile ⟨4096, by decide⟩).rounded .missing 3221225472 size
  rw [blocks, Rounded, isLeast_multiple_iff (by decide)] at rounded
  exact absurd rounded.2.2 (by decide)

end Vpopmail.Vusaged.FileSizes

import Vpopmail.Names
import Vpopmail.Foundation.Buffer

/-! # `vpasswd`

The change of a password as the command line and the daemons make it, on top of
any password store.
-/

namespace Vpopmail

open Text Buffer

/-! ## `mkpasswd3` -/

/-- `saltchar` of `randltr`. -/
def saltchar : List Char :=
  "./0123456789ABCDEFGHIJKLMNOPQRSTUVWXYZabcdefghijklmnopqrstuvwxyz".toList

/-- A value of `randltr` is one of its letters. -/
abbrev SaltLetter := { letter : Char // letter ∈ saltchar }

/-- What `mkpasswd3` rests on: the switch `MD5_PASSWORDS`, the library function
`crypt`, which may return a null pointer, and the letters that `randltr` draws,
eight for the first salt and two for the second. -/
structure Encryption where
  md5Passwords : Bool
  crypt : (key salt : List Char) → Option (List Char)
  letters : Fin 8 → SaltLetter
  fallback : Fin 2 → SaltLetter

def Encryption.salt (encryption : Encryption) : List Char :=
  let letter := fun position => (encryption.letters position).val
  if encryption.md5Passwords then
    ['$', '1', '$', letter 0, letter 1, letter 2, letter 3, letter 4, letter 5, letter 6, letter 7]
  else [letter 0, letter 1]

/-- The salt of hosts whose `crypt` does not know MD5. -/
def Encryption.oldSalt (encryption : Encryption) : List Char :=
  [(encryption.fallback 0).val, (encryption.fallback 1).val]

/-- `tmpstr` of `mkpasswd3` at its end. -/
def Encryption.encrypted (encryption : Encryption) (clearpass : List Char) :
    Option (List Char) :=
  match encryption.crypt clearpass encryption.salt with
  | none => none
  | some tmpstr =>
      if encryption.md5Passwords && tmpstr[2]? != some '$' then
        encryption.crypt clearpass encryption.oldSalt
      else some tmpstr

/-- `mkpasswd3` into the cells of `crypted`, which stay as they are when it fails. -/
def mkpasswd3 (encryption : Encryption) (clearpass crypted : List Char) : List Char :=
  match encryption.encrypted clearpass with
  | none => crypted
  | some tmpstr => strncpyCells crypted.length tmpstr

/-! ## `pw_strength` -/

/-- The rules of `password_strength.conf`. A rule on a share gets the count and
the whole; the quotient is a `double`. -/
structure StrengthRules where
  length : Nat → Bool
  alphabet : Nat → Nat → Bool
  numeric : Nat → Nat → Bool
  other : Nat → Nat → Bool
  upperlower : Nat → Nat → Bool

def upperCode (char : Char) : Bool := 65 ≤ char.toNat && char.toNat ≤ 90

def lowerCode (char : Char) : Bool := !upperCode char && 90 ≤ char.toNat && char.toNat ≤ 122

def numericCode (char : Char) : Bool := 48 ≤ char.toNat && char.toNat ≤ 57

def pwStrength (rules : StrengthRules) (password : List Char) : Int :=
  let upper := password.countP upperCode
  let lower := password.countP lowerCode
  let numeric := password.countP numericCode
  let alpha := upper + lower
  let other := password.length - alpha - numeric
  if !rules.length password.length then -70
  else if !rules.alphabet alpha password.length then -71
  else if !rules.numeric numeric password.length then -72
  else if !rules.other other password.length then -73
  else if !rules.upperlower ((upper - lower) + (lower - upper)) alpha then -74
  else 1

theorem pwStrength_ne_zero (rules : StrengthRules) (password : List Char) :
    pwStrength rules password ≠ 0 := by
  simp only [pwStrength]
  repeat (split; · decide)
  decide

/-! ## The change -/

/-- The functions of a password store that `vpasswd` calls, and its records. A
record that `getpw` reports lies in memory of the store, into which `written`
puts the pointers of the caller. -/
structure PasswordStore (Store Record : Type) where
  getpw : Store → (user domain : List Char) → Checked (Option Record × Store)
  pwFlags : Record → BitVec 32
  written : Store → Record → (passwd : List Char) → (clearPasswd : Option (List Char)) →
    Record × Store
  setpw : Store → Record → (domain : List Char) → Checked (Int × Store)

/-- The build and the configuration of the caller. `crypted` are the cells of
`Crypted` as the stack happens to hold them. -/
structure PasswordChange where
  build : Build
  encryption : Encryption
  rules : StrengthRules
  crypted : { cells : List Char // cells.length = maxBuff }

/-- The clear password that is written, in builds that keep it. -/
def PasswordChange.clear (change : PasswordChange) (password : List Char) :
    Option (List Char) :=
  if change.build.clearPass then some password else none

section Change

variable {Store Record : Type}

/-- `vpasswd` in builds without `SQWEBMAIL_PASS`. -/
def vpasswd (backend : PasswordStore Store Record) (change : PasswordChange) (store : Store)
    (username domain password : List Char) : Checked (Int × Store) :=
  if username.length > maxPwName then .ok (VaCode.userNameTooLong.number, store)
  else if change.build.usersBigDir && username.length = 1 then
    .ok (VaCode.illegalUsername.number, store)
  else if domain.length > maxPwDomain then .ok (VaCode.domainNameTooLong.number, store)
  else if password.length > maxPwClearPasswd then .ok (VaCode.passwdTooLong.number, store)
  else if pwStrength change.rules password ≠ 1 then .ok (pwStrength change.rules password, store)
  else
    (backend.getpw store (lowerit username) (lowerit domain)).bind fun
      | (none, store) => .ok (-1, store)
      | (some mypw, store) =>
          if Has (backend.pwFlags mypw) noPasswdChng then .ok (-1, store)
          else
            (stringAt (mkpasswd3 change.encryption password change.crypted.val) 0).bind
              fun passwd =>
                let (mypw, store) := backend.written store mypw passwd (change.clear password)
                backend.setpw store mypw (lowerit domain)

variable {backend : PasswordStore Store Record} {change : PasswordChange}
  {store after : Store} {username domain password : List Char}

/-- The account of a successful change was found, and may be changed. -/
structure Changed (backend : PasswordStore Store Record) (change : PasswordChange)
    (store : Store) (username domain password : List Char) (mypw : Record) (looked : Store)
    (passwd : List Char) (after : Store) : Prop where
  short : password.length ≤ maxPwClearPasswd
  strong : pwStrength change.rules password = 1
  found : backend.getpw store (lowerit username) (lowerit domain) = .ok (some mypw, looked)
  allowed : ¬Has (backend.pwFlags mypw) noPasswdChng
  crypted : stringAt (mkpasswd3 change.encryption password change.crypted.val) 0 = .ok passwd
  set : backend.setpw (backend.written looked mypw passwd (change.clear password)).2
    (backend.written looked mypw passwd (change.clear password)).1 (lowerit domain) =
      .ok (0, after)

theorem vpasswd_success
    (succeeded : vpasswd backend change store username domain password = .ok (0, after)) :
    ∃ mypw looked passwd,
      Changed backend change store username domain password mypw looked passwd after := by
  rw [vpasswd] at succeeded
  split at succeeded
  · cases succeeded
  split at succeeded
  · cases succeeded
  split at succeeded
  · cases succeeded
  split at succeeded
  · cases succeeded
  rename_i short
  split at succeeded
  · rw [Except.ok.injEq, Prod.mk.injEq] at succeeded
    exact absurd succeeded.1 (pwStrength_ne_zero _ _)
  rename_i strong
  cases found : backend.getpw store (lowerit username) (lowerit domain) with
  | error fault =>
      rw [found] at succeeded
      cases succeeded
  | ok looked =>
      rcases looked with ⟨mypw, looked⟩
      rw [found] at succeeded
      cases mypw with
      | none => cases succeeded
      | some mypw =>
          simp only [Except.bind] at succeeded
          split at succeeded
          · cases succeeded
          · rename_i allowed
            split at succeeded
            · cases succeeded
            · rename_i passwd crypted
              exact ⟨mypw, looked, passwd, Nat.le_of_not_lt short, not_not.mp strong, found,
                allowed, crypted, succeeded⟩

/-- An account under `NO_PASSWD_CHNG` is refused, whatever the password is. -/
theorem vpasswd_refused {mypw : Record}
    (found : backend.getpw store (lowerit username) (lowerit domain) = .ok (some mypw, store))
    (flagged : Has (backend.pwFlags mypw) noPasswdChng) (change : PasswordChange)
    (password : List Char) :
    ∃ ret, ret ≠ 0 ∧ vpasswd backend change store username domain password = .ok (ret, store) := by
  rw [vpasswd]
  split
  · exact ⟨_, by decide, rfl⟩
  split
  · exact ⟨_, by decide, rfl⟩
  split
  · exact ⟨_, by decide, rfl⟩
  split
  · exact ⟨_, by decide, rfl⟩
  split
  · exact ⟨_, pwStrength_ne_zero _ _, rfl⟩
  refine ⟨-1, by decide, ?_⟩
  rw [found]
  exact if_pos flagged

end Change

/-! ## What `crypt` promises -/

/-- The documented behaviour of `crypt` with a salt of at least two characters:
it succeeds, its result starts with the first two characters of the salt, and
encrypting under the result gives the result again. -/
structure Encryption.Sound (encryption : Encryption) : Prop where
  succeeds : ∀ key salt, 2 ≤ salt.length → ∃ text, encryption.crypt key salt = some text
  salted : ∀ key salt text, 2 ≤ salt.length → encryption.crypt key salt = some text →
    text.take 2 = salt.take 2
  again : ∀ key salt text, 2 ≤ salt.length → encryption.crypt key salt = some text →
    encryption.crypt key text = some text

/-- Old-style passwords, all with the same text behind the salt. -/
def exampleEncryption : Encryption where
  md5Passwords := false
  crypt := fun _ salt => some (salt.take 2 ++ "JnggxhB/yWI".toList)
  letters := fun _ => ⟨'a', by decide⟩
  fallback := fun _ => ⟨'b', by decide⟩

theorem sound_exampleEncryption : exampleEncryption.Sound where
  succeeds := fun _ _ _ => ⟨_, rfl⟩
  salted := by
    intro key salt text long crypted
    rw [← Option.some.inj crypted, List.take_append_of_le_length (by rw [List.length_take]; omega),
      List.take_take]
    rfl
  again := by
    intro key salt text long crypted
    rw [← Option.some.inj crypted]
    show some ((salt.take 2 ++ "JnggxhB/yWI".toList).take 2 ++ _) = _
    rw [List.take_append_of_le_length (by rw [List.length_take]; omega), List.take_take]
    rfl

theorem SaltLetter.ne (letter : SaltLetter) : letter.val ≠ '{' ∧ letter.val ≠ nul := by
  have all : (saltchar.all fun char => char ≠ '{' ∧ char ≠ nul) = true := by decide
  exact of_decide_eq_true (List.all_eq_true.mp all letter.val letter.property)

/-- An encrypted password starts with a dollar or a letter of a salt. -/
theorem Encryption.Sound.head_encrypted {encryption : Encryption} (sound : encryption.Sound)
    (clearpass : List Char) :
    ∃ head tail, encryption.encrypted clearpass = some (head :: tail) ∧
      head ≠ '{' ∧ head ≠ nul := by
  have starts : ∀ salt head rest text, salt = head :: rest → 2 ≤ salt.length →
      encryption.crypt clearpass salt = some text → ∃ tail, text = head :: tail := by
    intro salt head rest text given long crypted
    have front := sound.salted clearpass salt text long crypted
    rw [given] at front
    cases text with
    | nil => cases front
    | cons first tail => exact ⟨tail, by rw [(List.cons.inj front).1]⟩
  have salt : ∃ head rest, encryption.salt = head :: rest ∧ 2 ≤ encryption.salt.length ∧
      head ≠ '{' ∧ head ≠ nul := by
    rw [Encryption.salt]
    split
    · exact ⟨'$', _, rfl, Nat.le_add_left 2 9, by decide, by decide⟩
    · exact ⟨_, _, rfl, Nat.le_refl 2, (encryption.letters 0).ne⟩
  rcases salt with ⟨head, rest, spelled, long, plain⟩
  rcases sound.succeeds clearpass encryption.salt long with ⟨text, crypted⟩
  rw [Encryption.encrypted, crypted]
  simp only
  split
  · rcases sound.succeeds clearpass encryption.oldSalt (Nat.le_refl 2) with ⟨old, oldCrypted⟩
    have pair : 2 ≤ encryption.oldSalt.length := Nat.le_refl 2
    rcases starts encryption.oldSalt _ _ old rfl pair oldCrypted with ⟨tail, rfl⟩
    exact ⟨_, tail, oldCrypted, (encryption.fallback 0).ne⟩
  · rcases starts _ head rest text spelled long crypted with ⟨tail, rfl⟩
    exact ⟨head, tail, rfl, plain⟩

theorem Encryption.Sound.head_mkpasswd3 {encryption : Encryption} (sound : encryption.Sound)
    {clearpass crypted passwd : List Char} (room : 0 < crypted.length)
    (made : stringAt (mkpasswd3 encryption clearpass crypted) 0 = .ok passwd) :
    ∃ head tail, passwd = head :: tail ∧ head ≠ '{' := by
  rcases sound.head_encrypted clearpass with ⟨head, tail, given, notBrace, notNul⟩
  have filled : mkpasswd3 encryption clearpass crypted =
      strncpyCells crypted.length (head :: tail) := by
    rw [mkpasswd3, given]
  rw [filled, stringAt] at made
  split at made
  · cases made
    have front : strncpyCells crypted.length (head :: tail) = head ::
        (tail ++ List.replicate (crypted.length - (tail.length + 1)) nul).take
          (crypted.length - 1) := by
      cases size : crypted.length with
      | zero => omega
      | succ count => rfl
    have text := List.takeWhile_cons_of_pos (p := fun char : Char => decide (char ≠ nul))
      (l := (tail ++ List.replicate (crypted.length - (tail.length + 1)) nul).take
        (crypted.length - 1)) (decide_eq_true notNul)
    rw [← front] at text
    exact ⟨head, _, text, notBrace⟩
  · cases made

end Vpopmail

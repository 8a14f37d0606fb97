import Vpopmail.Types
import Vpopmail.Foundation.Text

/-! # User and domain names

The name functions of `vpopmail.c`: lower-casing, the character checks and the
parser of email addresses.
-/

namespace Vpopmail

open Text

def lowerChar (char : Char) : Char :=
  if 65 ≤ char.toNat ∧ char.toNat ≤ 90 then Char.ofNat (char.toNat + 32) else char

/-- `strcasecmp` finds no difference. -/
def sameText (left right : List Char) : Bool := left.map lowerChar = right.map lowerChar

theorem sameText_eq_true {left right : List Char} :
    sameText left right = true ↔ left.map lowerChar = right.map lowerChar := by
  rw [sameText, decide_eq_true_eq]

/-- `lowerit` ends the string at its 156th character. -/
def lowerit (text : List Char) : List Char := (text.take 156).map lowerChar

def usernameChar (char : Char) : Bool :=
  let code := char.toNat
  code = 33 || code = 35 || code = 36 || code = 38 || code = 39 || code = 42 || code = 43 ||
    (45 ≤ code && code ≤ 57) || code = 61 || code = 63 || (65 ≤ code && code ≤ 90) ||
    (94 ≤ code && code ≤ 126)

/-- `is_username_valid(user) == 0`. -/
def isUsernameValid (user : List Char) : Bool := user.all usernameChar

def domainChar (char : Char) : Bool :=
  let code := char.toNat
  code = 45 || code = 46 || (48 ≤ code && code ≤ 57) || (65 ≤ code && code ≤ 90) ||
    (97 ≤ code && code ≤ 122)

/-- `is_domain_valid(domain) == 0`. -/
def isDomainValid (domain : List Char) : Bool := domain.all domainChar

/-- `ATCHARS`, tried in this order. -/
def atchars : List Char := ['@', '%', '/']

/-- `parse_email` into buffers of `buffSize` cells. A blank domain becomes
`defaultDomain`, the result of `vset_default_domain`. -/
def parseEmail (defaultDomain : List Char) (buffSize : Nat) (email : List Char) :
    Option (List Char × List Char) :=
  let email := lowerit email
  let (user, domain) :=
    match atchars.find? fun char => email.contains char with
    | some char =>
        let position := email.idxOf char
        (email.take (min (position + 1) buffSize - 1),
          (email.drop (position + 1)).take (buffSize - 1))
    | none => (email.take (buffSize - 1), [])
  if !isUsernameValid user then none
  else if !isDomainValid domain then none
  else some (user, if domain = [] then defaultDomain else domain)

/-- Lower-casing brings in no character but letters. -/
theorem free_lowerit {char : Char} (small : char.toNat < 97) {text : List Char}
    (plain : Free char text) : Free char (lowerit text) := by
  intro member
  rcases List.mem_map.mp member with ⟨before, inside, lowered⟩
  rw [lowerChar] at lowered
  split at lowered
  · next upper =>
      have code := congrArg Char.toNat lowered
      rw [Char.ofNat, dif_pos (Or.inl (by omega))] at code
      change before.toNat + 32 = char.toNat at code
      omega
  · exact plain (lowered ▸ List.mem_of_mem_take inside)

/-- Lower-casing leaves a name alone that is short and already lower case. -/
theorem lowerit_eq_self {text : List Char} (short : text.length ≤ 156)
    (lower : ∀ char ∈ text, lowerChar char = char) : lowerit text = text := by
  rw [lowerit, List.take_of_length_le short]
  calc
    text.map lowerChar = text.map id := List.map_congr_left lower
    _ = text := List.map_id text

theorem lowerChar_lowerChar (char : Char) : lowerChar (lowerChar char) = lowerChar char := by
  by_cases upper : 65 ≤ char.toNat ∧ char.toNat ≤ 90
  · have code : (Char.ofNat (char.toNat + 32)).toNat = char.toNat + 32 := by
      rw [Char.ofNat, dif_pos (Or.inl (by omega))]
      rfl
    rw [lowerChar, lowerChar, if_pos upper, if_neg]
    rw [code]
    omega
  · simp only [lowerChar, if_neg upper]

/-- The name of a parsed address is already lower case. -/
theorem lowerit_parseEmail {defaultDomain email user domain : List Char} {buffSize : Nat}
    (small : buffSize ≤ 157) (parsed : parseEmail defaultDomain buffSize email =
      some (user, domain)) : lowerit user = user := by
  have front : ∃ count ≤ buffSize - 1, user = (lowerit email).take count := by
    rw [parseEmail] at parsed
    cases found : atchars.find? fun char => (lowerit email).contains char with
    | none =>
        simp only [found, Option.ite_none_left_eq_some, Option.some.injEq, Prod.mk.injEq] at parsed
        exact ⟨_, Nat.le_refl _, parsed.2.2.1.symm⟩
    | some char =>
        simp only [found, Option.ite_none_left_eq_some, Option.some.injEq, Prod.mk.injEq] at parsed
        exact ⟨_, by omega, parsed.2.2.1.symm⟩
  rcases front with ⟨count, bound, rfl⟩
  apply lowerit_eq_self
  · rw [List.length_take]
    omega
  · intro char member
    rcases List.mem_map.mp (List.mem_of_mem_take member) with ⟨other, _, rfl⟩
    exact lowerChar_lowerChar other

end Vpopmail

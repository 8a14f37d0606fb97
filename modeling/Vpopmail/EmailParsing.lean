import Vpopmail.DefaultDomain
import Vpopmail.Names

/-! # Addresses of users

`parse_email_safe` and `user_domain_to_email`.
-/

namespace Vpopmail

open Text Buffer

/-- `lowerit` of the string in some cells. -/
def loweritCells (cells : List Char) : Checked (List Char) :=
  (stringAt cells 0).map fun text => storeChunk cells (lowerit text)

/-- The user in `parse_email_safe`: the cells, if the name is valid. Without cells it is not
looked at. -/
def parseUser (name user : List Char) : Checked (Option (List Char)) :=
  if user = [] then .ok (some user)
  else
    (copyString name user).bind fun user =>
      (loweritCells user).bind fun user =>
        (stringAt user 0).map fun text => if isUsernameValid text then some user else none

/-- The domain in `parse_email_safe`, where `rest` is what stands behind the `@`. -/
def parseDomain (environment : Environment) (rest : Option (List Char)) (domain : List Char) :
    Checked (Option (List Char)) :=
  if domain = [] then .ok (some domain)
  else
    (match rest with
      | some rest => copyString rest domain
      | none => vsetDefaultDomainSafe environment domain).bind fun domain =>
        (loweritCells domain).bind fun domain =>
          (stringAt domain 0).map fun text => if isDomainValid text then some domain else none

/-- `parse_email_safe` into the `ulen` cells of `user` and the `dlen` cells of `domain`. -/
def parseEmailSafe (environment : Environment) (email user domain : List Char) :
    Checked (Option (List Char × List Char)) :=
  if email = [] then .ok none
  else
    let (name, rest) := cut '@' email
    (parseUser name user).bind fun user =>
      match user with
      | none => .ok none
      | some user =>
          (parseDomain environment rest domain).map fun domain =>
            domain.map fun domain => (user, domain)

/-- `user_domain_to_email` into the `elen` cells of `email`, with the length it returns. -/
def userDomainToEmail (environment : Environment) (user domain email : List Char) :
    Checked (Nat × List Char) :=
  if user = [] then .ok (0, email)
  else
    (if domain = [] then
      (vsetDefaultDomainSafe environment (List.replicate 256 nul)).bind fun dom => stringAt dom 0
    else .ok domain).bind fun domain =>
      if domain = [] then .ok (0, email)
      else
        let ulen := user.length
        let dlen := domain.length
        if email.length ≤ ulen + dlen + 1 then .ok (0, email)
        else
          (memcpy 0 ulen user email).bind fun email =>
            (memcpy (ulen + 1) dlen domain email).bind fun email =>
              (poke ulen '@' email).bind fun email =>
                (poke (ulen + dlen + 1) nul email).map fun email => (ulen + dlen + 1, email)

/-! ## Strings in their cells -/

theorem stringAt_zero {cells : List Char} (ended : nul ∈ cells) :
    stringAt cells 0 = .ok (cstring cells) := if_pos ended

theorem nul_mem_storeChunk (cells chunk : List Char) : nul ∈ storeChunk cells chunk := by
  simp [storeChunk]

theorem loweritCells_storeChunk {cells chunk : List Char} (plain : Free nul chunk) :
    ∃ after, loweritCells (storeChunk cells chunk) = .ok after ∧
      stringAt after 0 = .ok (lowerit chunk) ∧ cstring after = lowerit chunk := by
  have string : stringAt (storeChunk cells chunk) 0 = .ok chunk := by
    rw [stringAt_zero (nul_mem_storeChunk cells chunk), cstring_storeChunk plain]
  refine ⟨storeChunk (storeChunk cells chunk) (lowerit chunk), ?_, ?_, ?_⟩
  · rw [loweritCells, string]
    rfl
  · rw [stringAt_zero (nul_mem_storeChunk _ _), cstring_storeChunk (free_lowerit (by decide) plain)]
  · exact cstring_storeChunk (free_lowerit (by decide) plain) _

/-- The name as it is cut to the buffer and lower-cased. -/
theorem parseUser_spec {name user : List Char} (plain : Free nul name) (room : user ≠ []) :
    ∃ after, cstring after = lowerit (name.take (user.length - 1)) ∧
      parseUser name user =
        .ok (if isUsernameValid (lowerit (name.take (user.length - 1))) then some after
          else none) := by
  have cutPlain : Free nul (name.take (user.length - 1)) :=
    fun member => plain (List.mem_of_mem_take member)
  rcases @loweritCells_storeChunk user _ cutPlain with ⟨after, lowered, string, left⟩
  refine ⟨after, left, ?_⟩
  rw [parseUser, if_neg room, copyString_eq name room]
  simp only [Except.bind, lowered, string, Except.map]

theorem parseDomain_spec {environment : Environment} {rest domain : List Char}
    (plain : Free nul rest) (room : domain ≠ []) :
    ∃ after, cstring after = lowerit (rest.take (domain.length - 1)) ∧
      parseDomain environment (some rest) domain =
        .ok (if isDomainValid (lowerit (rest.take (domain.length - 1))) then some after
          else none) := by
  have cutPlain : Free nul (rest.take (domain.length - 1)) :=
    fun member => plain (List.mem_of_mem_take member)
  rcases @loweritCells_storeChunk domain _ cutPlain with ⟨after, lowered, string, left⟩
  refine ⟨after, left, ?_⟩
  rw [parseDomain, if_neg room]
  simp only [copyString_eq rest room, Except.bind, lowered, string, Except.map]

/-! ## Composing and parsing -/

/-- A name in its lower-case form, which `lowerit` does not cut. -/
structure LowerName (valid : List Char → Bool) (name : List Char) : Prop where
  valid : valid name = true
  lower : ∀ char ∈ name, lowerChar char = char
  nonempty : name ≠ []
  short : name.length ≤ 156

theorem lowerName_of_map {valid : List Char → Bool} {name : List Char} (isValid : valid name = true)
    (lower : name.map lowerChar = name) (nonempty : name ≠ []) (short : name.length ≤ 156) :
    LowerName valid name :=
  ⟨isValid, List.map_eq_map_iff.mp (lower.trans (List.map_id name).symm), nonempty, short⟩

theorem free_of_isUsernameValid {char : Char} {user : List Char} (other : usernameChar char = false)
    (valid : isUsernameValid user = true) : Free char user := by
  intro member
  rw [List.all_eq_true.mp valid char member] at other
  cases other

theorem free_of_isDomainValid {char : Char} {domain : List Char} (other : domainChar char = false)
    (valid : isDomainValid domain = true) : Free char domain := by
  intro member
  rw [List.all_eq_true.mp valid char member] at other
  cases other

theorem exists_append_of_le {cells : List Char} {count : Nat} (inside : count ≤ cells.length) :
    ∃ before behind, cells = before ++ behind ∧ before.length = count :=
  ⟨cells.take count, cells.drop count, (List.take_append_drop count cells).symm,
    List.length_take_of_le inside⟩

/-- The parts are written one behind the other, with the terminator at the end. -/
theorem userDomainToEmail_eq (environment : Environment) {user domain email : List Char}
    (userNonempty : user ≠ []) (domainNonempty : domain ≠ [])
    (room : user.length + domain.length + 2 ≤ email.length) :
    ∃ behind, userDomainToEmail environment user domain email =
      .ok (user.length + domain.length + 1, user ++ '@' :: domain ++ nul :: behind) ∧
        (user ++ '@' :: domain ++ nul :: behind).length = email.length := by
  rcases exists_append_of_le (show user.length ≤ email.length by omega) with
    ⟨first, others, rfl, firstLength⟩
  rw [List.length_append] at room
  cases others with
  | nil =>
      rw [List.length_nil] at room
      omega
  | cons at_ others =>
      rw [List.length_cons] at room
      rcases exists_append_of_le (show domain.length ≤ others.length by omega) with
        ⟨second, behind, rfl, secondLength⟩
      rw [List.length_append] at room
      cases behind with
      | nil =>
          rw [List.length_nil] at room
          omega
      | cons ending behind =>
          have copiedUser : memcpy 0 user.length user
              (first ++ at_ :: (second ++ ending :: behind)) =
                .ok (user ++ at_ :: (second ++ ending :: behind)) :=
            memcpy_append [] user _ firstLength
          have copiedDomain : memcpy (user.length + 1) domain.length domain
              (user ++ at_ :: (second ++ ending :: behind)) =
                .ok (user ++ at_ :: (domain ++ ending :: behind)) := by
            simpa using memcpy_append (user ++ [at_]) domain (ending :: behind) secondLength
          have wroteAt : poke user.length '@' (user ++ at_ :: (domain ++ ending :: behind)) =
              .ok (user ++ '@' :: (domain ++ ending :: behind)) := poke_append '@' at_ _
          have wroteEnd : poke (user.length + domain.length + 1) nul
              (user ++ '@' :: (domain ++ ending :: behind)) =
                .ok (user ++ '@' :: domain ++ nul :: behind) := by
            have written := @poke_append (user ++ '@' :: domain) nul ending behind
            rwa [List.length_append, List.length_cons, List.append_assoc, ← Nat.add_assoc]
              at written
          have fits : ¬ (first ++ at_ :: (second ++ ending :: behind)).length ≤
              user.length + domain.length + 1 := by
            simp only [List.length_append, List.length_cons] at room ⊢
            omega
          refine ⟨behind, ?_, ?_⟩
          · rw [userDomainToEmail, if_neg userNonempty, if_neg domainNonempty]
            simp only [Except.bind, if_neg domainNonempty, if_neg fits, copiedUser, copiedDomain,
              wroteAt, wroteEnd, Except.map]
          · simp only [List.length_append, List.length_cons]
            omega

/-- An address that does not fit is not written. -/
theorem userDomainToEmail_of_small (environment : Environment) {user domain email : List Char}
    (domainNonempty : domain ≠ []) (small : email.length < user.length + domain.length + 2) :
    userDomainToEmail environment user domain email = .ok (0, email) := by
  rw [userDomainToEmail, if_neg domainNonempty]
  split
  · rfl
  · simp only [Except.bind, if_neg domainNonempty]
    exact if_pos (by omega)

theorem parseEmailSafe_composed (environment : Environment) {user domain : List Char}
    (userName : LowerName isUsernameValid user) (domainName : LowerName isDomainValid domain)
    {userCells domainCells : List Char} (userRoom : user.length < userCells.length)
    (domainRoom : domain.length < domainCells.length) :
    ∃ userAfter domainAfter,
      parseEmailSafe environment (user ++ '@' :: domain) userCells domainCells =
        .ok (some (userAfter, domainAfter)) ∧
      cstring userAfter = user ∧ cstring domainAfter = domain := by
  have atFree : Free '@' user := free_of_isUsernameValid (by decide) userName.valid
  have userPlain : Free nul user := free_of_isUsernameValid (by decide) userName.valid
  have domainPlain : Free nul domain := free_of_isDomainValid (by decide) domainName.valid
  rcases parseUser_spec userPlain (List.ne_nil_of_length_pos (Nat.zero_lt_of_lt userRoom)) with
    ⟨userAfter, userString, userParsed⟩
  rcases @parseDomain_spec environment _ _ domainPlain
    (List.ne_nil_of_length_pos (Nat.zero_lt_of_lt domainRoom)) with
    ⟨domainAfter, domainString, domainParsed⟩
  rw [List.take_of_length_le (by omega), lowerit_eq_self userName.short userName.lower]
    at userString userParsed
  rw [List.take_of_length_le (by omega), lowerit_eq_self domainName.short domainName.lower]
    at domainString domainParsed
  rw [if_pos userName.valid] at userParsed
  rw [if_pos domainName.valid] at domainParsed
  refine ⟨userAfter, domainAfter, ?_, userString, domainString⟩
  rw [parseEmailSafe, if_neg (by simp), cut_append_cons atFree]
  simp only [userParsed, Except.bind, domainParsed, Except.map, Option.map]

/-- An address that fits is composed and parsed back, and one that does not fit is not
written. -/
theorem userDomainToEmail_roundTrip (environment : Environment) (user domain : List Char)
    (userName : LowerName isUsernameValid user) (domainName : LowerName isDomainValid domain)
    (email : List Char) :
    (user.length + domain.length + 2 ≤ email.length →
      ∃ after, userDomainToEmail environment user domain email =
          .ok (user.length + domain.length + 1, after) ∧ after.length = email.length ∧
        ∀ userCells domainCells : List Char, user.length < userCells.length →
          domain.length < domainCells.length → ∃ userAfter domainAfter,
            parseEmailSafe environment (cstring after) userCells domainCells =
              .ok (some (userAfter, domainAfter)) ∧
            cstring userAfter = user ∧ cstring domainAfter = domain) ∧
      (email.length < user.length + domain.length + 2 →
        userDomainToEmail environment user domain email = .ok (0, email)) := by
  refine ⟨?_, userDomainToEmail_of_small environment domainName.nonempty⟩
  intro room
  rcases userDomainToEmail_eq environment userName.nonempty domainName.nonempty room with
    ⟨behind, composed, length⟩
  refine ⟨_, composed, length, ?_⟩
  intro userCells domainCells userRoom domainRoom
  have plain : Free nul (user ++ '@' :: domain) := by
    rw [free_append, free_cons]
    exact ⟨free_of_isUsernameValid (by decide) userName.valid, by decide,
      free_of_isDomainValid (by decide) domainName.valid⟩
  rw [cstring_append_nul plain]
  exact parseEmailSafe_composed environment userName domainName userRoom domainRoom

/-- Nothing is set. -/
def blankEnvironment : Environment := ⟨none, none, false, fun _ => none, none, none⟩

theorem userDomainToEmail_roundTrip_short :
    ∃ after, userDomainToEmail blankEnvironment ['a'] ['b', '.', 'c'] (List.replicate 6 'x') =
        .ok (5, after) ∧ after.length = 6 ∧
      ∀ userCells domainCells : List Char, 1 < userCells.length → 3 < domainCells.length →
        ∃ userAfter domainAfter,
          parseEmailSafe blankEnvironment (cstring after) userCells domainCells =
            .ok (some (userAfter, domainAfter)) ∧
          cstring userAfter = ['a'] ∧ cstring domainAfter = ['b', '.', 'c'] :=
  (userDomainToEmail_roundTrip blankEnvironment ['a'] ['b', '.', 'c']
    (lowerName_of_map (by decide) (by decide) (by decide) (by decide))
    (lowerName_of_map (by decide) (by decide) (by decide) (by decide))
    (List.replicate 6 'x')).1 (by decide)

end Vpopmail

import Vpopmail.DefaultDomainAgreement
import Vpopmail.EmailParsing

/-! # The safe parser of addresses

When `parse_email_safe` accepts the addresses that `parse_email` does, with the same parts.
-/

namespace Vpopmail

open Text Buffer

/-! ## Lower-casing -/

theorem toNat_lowerChar (char : Char) :
    (lowerChar char).toNat =
      if 65 ≤ char.toNat ∧ char.toNat ≤ 90 then char.toNat + 32 else char.toNat := by
  rw [lowerChar]
  split
  · rw [Char.ofNat, dif_pos (Or.inl (by omega))]
    rfl
  · rfl

/-- No letter becomes a separator. -/
theorem lowerChar_eq_iff {char separator : Char} (small : separator.toNat < 65) :
    lowerChar char = separator ↔ char = separator := by
  have code := toNat_lowerChar char
  constructor
  · intro equal
    rw [equal] at code
    split at code
    · omega
    · next notUpper => rwa [lowerChar, if_neg notUpper] at equal
  · rintro rfl
    rw [lowerChar, if_neg (by omega)]

theorem usernameChar_lowerChar (char : Char) :
    usernameChar (lowerChar char) = usernameChar char := by
  have code := toNat_lowerChar char
  rw [Bool.eq_iff_iff]
  simp only [usernameChar, code, Bool.or_eq_true, Bool.and_eq_true, decide_eq_true_eq]
  split <;> omega

theorem domainChar_lowerChar (char : Char) : domainChar (lowerChar char) = domainChar char := by
  have code := toNat_lowerChar char
  rw [Bool.eq_iff_iff]
  simp only [domainChar, code, Bool.or_eq_true, Bool.and_eq_true, decide_eq_true_eq]
  split <;> omega

theorem isUsernameValid_map (text : List Char) :
    isUsernameValid (text.map lowerChar) = isUsernameValid text := by
  rw [isUsernameValid, isUsernameValid, List.all_map]
  apply congrArg text.all
  funext char
  exact usernameChar_lowerChar char

theorem isDomainValid_map (text : List Char) :
    isDomainValid (text.map lowerChar) = isDomainValid text := by
  rw [isDomainValid, isDomainValid, List.all_map]
  apply congrArg text.all
  funext char
  exact domainChar_lowerChar char

theorem contains_map_lowerChar (text : List Char) {separator : Char}
    (small : separator.toNat < 65) :
    (text.map lowerChar).contains separator = text.contains separator := by
  rw [Bool.eq_iff_iff, List.contains_iff_mem, List.contains_iff_mem, List.mem_map]
  constructor
  · intro member
    rcases member with ⟨char, inside, lowered⟩
    rwa [(lowerChar_eq_iff small).mp lowered] at inside
  · intro member
    exact ⟨separator, member, (lowerChar_eq_iff small).mpr rfl⟩

/-! ## Where the addresses are cut -/

theorem toNat_of_mem_atchars : ∀ separator ∈ atchars, separator.toNat < 65 := by
  intro separator member
  simp only [atchars, List.mem_cons, List.not_mem_nil, or_false] at member
  rcases member with rfl | rfl | rfl
  · decide
  · decide
  · decide

/-- The parts in front of and behind the separator that is tried first. -/
def separated (text : List Char) : List Char × List Char :=
  match atchars.find? fun char => text.contains char with
  | some char => ((cut char text).1, (cut char text).2.getD [])
  | none => (text, [])

theorem separated_of_find {text : List Char} {separator : Char}
    (found : (atchars.find? fun char => text.contains char) = some separator) :
    separator.toNat < 65 ∧ ∃ name rest, Free separator name ∧
      text = name ++ separator :: rest ∧ separated text = (name, rest) := by
  have present : separator ∈ text := List.contains_iff_mem.mp (List.find?_some found)
  refine ⟨toNat_of_mem_atchars separator (List.mem_of_find?_eq_some found), ?_⟩
  rcases free_or_eq_append_cons separator text with missing | ⟨name, rest, free, rfl⟩
  · exact absurd present missing
  · refine ⟨name, rest, free, rfl, ?_⟩
    have cuts := cut_append_cons free rest
    simp only [separated, found, cuts, Option.getD_some]

theorem separated_at {name rest : List Char} (free : Free '@' name) :
    separated (name ++ '@' :: rest) = (name, rest) := by
  have found : (atchars.find? fun char => (name ++ '@' :: rest).contains char) = some '@' := by
    rw [atchars, List.find?_cons_of_pos]
    simp
  have cuts := cut_append_cons free rest
  simp only [separated, found, cuts, Option.getD_some]

theorem find?_lowerit (email : List Char) :
    (atchars.find? fun char => (lowerit email).contains char) =
      atchars.find? fun char => (email.take 156).contains char := by
  have same (char : Char) (small : char.toNat < 65) :
      (lowerit email).contains char = (email.take 156).contains char :=
    contains_map_lowerChar _ small
  simp only [atchars, List.find?_cons, same '@' (by decide), same '%' (by decide),
    same '/' (by decide)]
  rfl

/-- The end of `parse_email`, for parts that are already lower case. -/
theorem validated_map (set name rest : List Char) :
    (if (!isUsernameValid (name.map lowerChar)) = true then none
      else if (!isDomainValid (rest.map lowerChar)) = true then none
      else some (name.map lowerChar,
        if rest.map lowerChar = [] then set else rest.map lowerChar)) =
      if (isUsernameValid name && isDomainValid rest) = true then
        some (name.map lowerChar, if rest = [] then set else rest.map lowerChar)
      else none := by
  rw [isUsernameValid_map, isDomainValid_map]
  simp only [List.map_eq_nil_iff]
  cases isUsernameValid name with
  | false => rfl
  | true => cases isDomainValid rest <;> rfl

/-- `parse_email` looks at 156 characters. -/
theorem parseEmail_eq (set email : List Char) {size : Nat} (positive : 0 < size) :
    parseEmail set size email =
      let name := (separated (email.take 156)).1.take (size - 1)
      let rest := (separated (email.take 156)).2.take (size - 1)
      if isUsernameValid name && isDomainValid rest then
        some (name.map lowerChar, if rest = [] then set else rest.map lowerChar)
      else none := by
  dsimp only
  rw [← validated_map, parseEmail]
  simp only [find?_lowerit]
  rw [lowerit]
  generalize email.take 156 = front
  cases found : atchars.find? fun char => front.contains char with
  | none =>
      have whole : separated front = (front, []) := by simp only [separated, found]
      simp only [whole, List.map_take, List.take_nil, List.map_nil]
  | some separator =>
      rcases separated_of_find found with ⟨small, name, rest, free, rfl, cuts⟩
      have lowered : lowerChar separator = separator := (lowerChar_eq_iff small).mpr rfl
      have whole : (name ++ separator :: rest).map lowerChar =
          name.map lowerChar ++ separator :: rest.map lowerChar := by
        rw [List.map_append, List.map_cons, lowered]
      have position : (name.map lowerChar ++ separator :: rest.map lowerChar).idxOf separator =
          (name.map lowerChar).length := by
        rw [List.idxOf_append_of_notMem, List.idxOf_cons_self, Nat.add_zero]
        intro member
        rcases List.mem_map.mp member with ⟨char, inside, equal⟩
        exact free ((lowerChar_eq_iff small).mp equal ▸ inside)
      have front : (name.map lowerChar ++ separator :: rest.map lowerChar).take
          (min ((name.map lowerChar).length + 1) size - 1) =
            (name.take (size - 1)).map lowerChar := by
        have shorter : min ((name.map lowerChar).length + 1) size - 1 =
            min (size - 1) (name.map lowerChar).length := by omega
        rw [shorter, ← List.take_take, List.take_left, List.map_take]
      have behind : ((name.map lowerChar ++ separator :: rest.map lowerChar).drop
          ((name.map lowerChar).length + 1)).take (size - 1) =
            (rest.take (size - 1)).map lowerChar := by
        rw [List.drop_append, List.drop_of_length_le (by omega), Nat.add_sub_cancel_left,
          List.map_take]
        rfl
      simp only [cuts, whole, position, front, behind]

/-! ## What the safe parser accepts -/

section Safe

variable {environment : Environment} {size : Nat} {user domain : List Char}

theorem isUsernameValid_lowerit (text : List Char) :
    isUsernameValid (lowerit text) = isUsernameValid (text.take 156) :=
  isUsernameValid_map _

theorem isDomainValid_lowerit (text : List Char) :
    isDomainValid (lowerit text) = isDomainValid (text.take 156) :=
  isDomainValid_map _

/-- An address with an `@`. -/
theorem parseEmailSafe_at {name rest : List Char} (free : Free '@' name)
    (plain : Free nul (name ++ '@' :: rest)) (positive : 0 < size) (userSize : user.length = size)
    (domainSize : domain.length = size) :
    ∃ userAfter domainAfter, cstring userAfter = lowerit (name.take (size - 1)) ∧
      cstring domainAfter = lowerit (rest.take (size - 1)) ∧
      parseEmailSafe environment (name ++ '@' :: rest) user domain =
        .ok (if isUsernameValid ((name.take (size - 1)).take 156) &&
            isDomainValid ((rest.take (size - 1)).take 156) then some (userAfter, domainAfter)
          else none) := by
  rw [free_append, free_cons] at plain
  rcases parseUser_spec plain.1 (List.ne_nil_of_length_pos (userSize ▸ positive)) with
    ⟨userAfter, userString, userParsed⟩
  rcases @parseDomain_spec environment _ _ plain.2.2
    (List.ne_nil_of_length_pos (domainSize ▸ positive)) with
    ⟨domainAfter, domainString, domainParsed⟩
  rw [userSize] at userString userParsed
  rw [domainSize] at domainString domainParsed
  rw [isUsernameValid_lowerit] at userParsed
  rw [isDomainValid_lowerit] at domainParsed
  refine ⟨userAfter, domainAfter, userString, domainString, ?_⟩
  rw [parseEmailSafe, if_neg (by simp), cut_append_cons free]
  simp only [userParsed, Except.bind]
  cases isUsernameValid ((name.take (size - 1)).take 156) with
  | false => rfl
  | true =>
      simp only [domainParsed, if_true, Except.map, Bool.true_and]
      cases isDomainValid ((rest.take (size - 1)).take 156) with
      | false => rfl
      | true => rfl

/-- The name of an address without an `@`. -/
theorem parseEmailSafe_refuses {email : List Char} (free : Free '@' email)
    (plain : Free nul email) (nonempty : email ≠ []) (positive : 0 < size)
    (userSize : user.length = size)
    (invalid : isUsernameValid ((email.take (size - 1)).take 156) = false) :
    parseEmailSafe environment email user domain = .ok none := by
  rcases parseUser_spec plain (List.ne_nil_of_length_pos (userSize ▸ positive)) with
    ⟨userAfter, -, userParsed⟩
  rw [userSize, isUsernameValid_lowerit, invalid] at userParsed
  rw [parseEmailSafe, if_neg nonempty, cut_of_free free]
  simp only [userParsed, Except.bind]
  rfl

/-- A valid name without an `@` leaves the domain as it is, which need not be a string. -/
theorem parseEmailSafe_faults {email : List Char} (free : Free '@' email)
    (plain : Free nul email) (nonempty : email ≠ []) (positive : 0 < size)
    (userSize : user.length = size)
    (valid : isUsernameValid ((email.take (size - 1)).take 156) = true) :
    parseEmailSafe environment email user (List.replicate size 'a') = .error .outOfBounds := by
  rcases parseUser_spec plain (List.ne_nil_of_length_pos (userSize ▸ positive)) with
    ⟨userAfter, -, userParsed⟩
  rw [userSize, isUsernameValid_lowerit, valid] at userParsed
  have cells : List.replicate size 'a' ≠ [] := by
    rw [ne_eq, List.replicate_eq_nil_iff]
    omega
  have filled : (List.replicate size 'a').head? ≠ some nul := by
    rw [List.head?_replicate, if_neg (by omega)]
    decide
  have kept : vsetDefaultDomainSafe environment (List.replicate size 'a') =
      .ok (List.replicate size 'a') := by
    rw [vsetDefaultDomainSafe, if_neg cells, if_pos filled]
  have unended : loweritCells (List.replicate size 'a') = .error .outOfBounds := by
    have missing : nul ∉ (List.replicate size 'a').drop 0 := by
      intro member
      exact absurd (List.eq_of_mem_replicate member) (by decide)
    rw [loweritCells, stringAt, if_neg missing]
    rfl
  rw [parseEmailSafe, if_neg nonempty, cut_of_free free]
  simp only [userParsed, Except.bind, if_true, parseDomain, if_neg cells, kept, unended]
  rfl

end Safe

/-! ## Agreement -/

/-- `parse_email` with the default domain that is set at its end. -/
def parseEmailIn (environment : Environment) (size : Nat) (email : List Char) :
    Checked (Option (List Char × List Char)) :=
  match parseEmail [] size email with
  | none => .ok none
  | some (user, domain) =>
      (vsetDefaultDomain environment domain).map fun domain => some (user, domain)

/-- The two parsers agree on an address for buffers of one size, whatever the buffers hold, and
the safe one stays inside them. -/
def ParsersAgree (environment : Environment) (size : Nat) (email : List Char) : Prop :=
  ∀ user domain : List Char, user.length = size → domain.length = size → ∃ parsed,
    parseEmailSafe environment email user domain = .ok parsed ∧
      parseEmailIn environment size email =
        .ok (parsed.map fun cells => (cstring cells.1, cstring cells.2))

/-- A part that the validators do not accept. -/
def Invalid (name rest : List Char) : Prop :=
  isUsernameValid name = false ∨ isDomainValid rest = false

/-- The addresses that both parsers read alike, whatever the default domain is. -/
inductive ReadAlike (size : Nat) (email : List Char) : Prop
  /-- The part of the domain that is copied is not empty and ends in the first 156
  characters. -/
  | whole {name rest : List Char} : email = name ++ '@' :: rest → Free '@' name →
      rest.take (size - 1) ≠ [] → name.length + 1 + (rest.take (size - 1)).length ≤ 156 →
      ReadAlike size email
  /-- The `@` is one of the first 156 characters, and a part in them is not valid. -/
  | invalid {name rest : List Char} : email = name ++ '@' :: rest → Free '@' name →
      name.length < 156 →
      Invalid (name.take (size - 1)) ((rest.take (155 - name.length)).take (size - 1)) →
      ReadAlike size email
  /-- The `@` is not one of the first 156 characters. A part of these, cut at a `%` or a `/`,
  is not valid, and they or the domain behind an `@` are not valid either. -/
  | invalidFar : email ≠ [] → Free '@' (email.take 156) →
      Invalid ((separated (email.take 156)).1.take (size - 1))
        ((separated (email.take 156)).2.take (size - 1)) →
      (isUsernameValid ((email.take 156).take (size - 1)) = false ∨ ∃ name rest,
        email = name ++ '@' :: rest ∧ Free '@' name ∧
          isDomainValid ((rest.take (size - 1)).take 156) = false) →
      ReadAlike size email
  /-- The `@` is not one of the first 156 characters, but the buffers are so small that the
  parts around it look like those around a `%` or a `/`. -/
  | sameFar {name rest : List Char} : email = name ++ '@' :: rest → Free '@' name →
      156 ≤ name.length →
      (separated (email.take 156)).1.take (size - 1) = (email.take 156).take (size - 1) →
      (separated (email.take 156)).2.take (size - 1) ≠ [] →
      ((separated (email.take 156)).2.take (size - 1)).map lowerChar =
        lowerit (rest.take (size - 1)) →
      ReadAlike size email

/-- The name is the same for both parsers, `parse_email` has no domain in its first 156 characters,
and what stands behind the `@` is the default domain. -/
inductive Defaulted (environment : Environment) (size : Nat) (email : List Char) : Prop
  | mk {name rest : List Char} : email = name ++ '@' :: rest → Free '@' name →
      (separated (email.take 156)).1.take (size - 1) = (name.take (size - 1)).take 156 →
      (separated (email.take 156)).2.take (size - 1) = [] →
      isDomainValid ((rest.take (size - 1)).take 156) = true →
      vsetDefaultDomain environment [] = .ok (lowerit (rest.take (size - 1))) →
      Defaulted environment size email

/-! ## Where the two parsers look -/

/-- The default domain is asked for only where no domain is found. -/
theorem parseEmailIn_eq (environment : Environment) (email : List Char) {size : Nat}
    (positive : 0 < size) :
    parseEmailIn environment size email =
      let name := (separated (email.take 156)).1.take (size - 1)
      let rest := (separated (email.take 156)).2.take (size - 1)
      if isUsernameValid name && isDomainValid rest then
        (vsetDefaultDomain environment (rest.map lowerChar)).map fun domain =>
          some (name.map lowerChar, domain)
      else .ok none := by
  rw [parseEmailIn, parseEmail_eq _ _ positive]
  dsimp only
  split
  · rename_i found
    split at found
    · cases found
    · next refuses => rw [if_neg refuses]
  · rename_i user domain found
    split at found
    · next accepts =>
        rw [if_pos accepts]
        cases found
        split
        · next none => rw [none, List.map_nil]
        · rfl
    · cases found

theorem vsetDefaultDomain_of_ne {environment : Environment} {domain : List Char}
    (filled : domain ≠ []) : vsetDefaultDomain environment domain = .ok domain := if_pos filled

/-- An address whose default domain is the variable. -/
def namedEnvironment (value : CString) : Environment := ⟨some value, none, false, fun _ => none,
  none, none⟩

theorem take_of_near {name : List Char} (near : name.length < 156) (rest : List Char) :
    (name ++ '@' :: rest).take 156 = name ++ '@' :: rest.take (155 - name.length) := by
  have room : 156 - name.length = 155 - name.length + 1 := by omega
  rw [List.take_append, List.take_of_length_le (Nat.le_of_lt near), room, List.take_succ_cons]

/-- An address with an `@` in its first 156 characters, and any other one. -/
theorem near_or_far (email : List Char) :
    (∃ name rest, email = name ++ '@' :: rest ∧ Free '@' name ∧ name.length < 156) ∨
      Free '@' (email.take 156) ∧ (Free '@' email ∨
        ∃ name rest, email = name ++ '@' :: rest ∧ Free '@' name ∧ 156 ≤ name.length) := by
  rcases free_or_eq_append_cons '@' email with free | ⟨name, rest, free, rfl⟩
  · exact .inr ⟨fun member => free (List.mem_of_mem_take member), .inl free⟩
  · rcases Nat.lt_or_ge name.length 156 with near | far
    · exact .inl ⟨name, rest, rfl, free, near⟩
    · refine .inr ⟨?_, .inr ⟨name, rest, rfl, free, far⟩⟩
      rw [List.take_append_of_le_length far]
      exact fun member => free (List.mem_of_mem_take member)

theorem take_comm (first second : Nat) (text : List Char) :
    (text.take first).take second = (text.take second).take first := by
  rw [List.take_take, List.take_take, Nat.min_comm]

/-- The parts that `parse_email` finds at an `@`. -/
theorem separated_of_near {name : List Char} (free : Free '@' name) (near : name.length < 156)
    (rest : List Char) :
    separated ((name ++ '@' :: rest).take 156) = (name, rest.take (155 - name.length)) := by
  rw [take_of_near near, separated_at free]

theorem isDomainValid_take {text : List Char} {count : Nat}
    (invalid : isDomainValid (text.take count) = false) : isDomainValid text = false := by
  rw [isDomainValid, List.all_eq_false] at invalid ⊢
  rcases invalid with ⟨char, member, bad⟩
  exact ⟨char, List.mem_of_mem_take member, bad⟩

section Near

variable {environment : Environment} {size : Nat} {name rest : List Char}

/-- The parts of an address with an `@` among the first 156 characters, when the parser
that reads only these refuses them. -/
theorem parsersAgree_of_invalid (free : Free '@' name) (near : name.length < 156)
    (plain : Free nul (name ++ '@' :: rest)) (positive : 0 < size)
    (invalid : Invalid (name.take (size - 1)) ((rest.take (155 - name.length)).take (size - 1))) :
    ParsersAgree environment size (name ++ '@' :: rest) := by
  intro user domain userSize domainSize
  rcases @parseEmailSafe_at environment _ _ _ _ _ free plain positive userSize domainSize with
    ⟨userAfter, domainAfter, -, -, parsed⟩
  have short : (name.take (size - 1)).take 156 = name.take (size - 1) :=
    List.take_of_length_le (by rw [List.length_take]; omega)
  have refuses : (isUsernameValid ((name.take (size - 1)).take 156) &&
      isDomainValid ((rest.take (size - 1)).take 156)) = false := by
    rw [short, Bool.and_eq_false_iff]
    rcases invalid with badName | badRest
    · exact .inl badName
    · apply Or.inr
      apply isDomainValid_take
      show isDomainValid (((rest.take (size - 1)).take 156).take (155 - name.length)) = false
      rwa [List.take_take, Nat.min_eq_left (by omega), take_comm]
  refine ⟨none, ?_, ?_⟩
  · rw [parsed, refuses]
    rfl
  · rw [parseEmailIn_eq _ _ positive, separated_of_near free near]
    dsimp only
    rw [if_neg]
    · rfl
    · rw [Bool.not_eq_true, Bool.and_eq_false_iff]
      exact invalid

/-- The same where the part of the domain that is copied is inside. -/
theorem parsersAgree_of_whole (free : Free '@' name)
    (plain : Free nul (name ++ '@' :: rest)) (positive : 0 < size)
    (nonempty : rest.take (size - 1) ≠ [])
    (inside : name.length + 1 + (rest.take (size - 1)).length ≤ 156) :
    ParsersAgree environment size (name ++ '@' :: rest) := by
  intro user domain userSize domainSize
  have near : name.length < 156 := by omega
  rcases @parseEmailSafe_at environment _ _ _ _ _ free plain positive userSize domainSize with
    ⟨userAfter, domainAfter, userString, domainString, parsed⟩
  have shortName : (name.take (size - 1)).take 156 = name.take (size - 1) :=
    List.take_of_length_le (by rw [List.length_take]; omega)
  have shortRest : (rest.take (size - 1)).take 156 = rest.take (size - 1) :=
    List.take_of_length_le (by omega)
  have same : (rest.take (155 - name.length)).take (size - 1) = rest.take (size - 1) := by
    rw [take_comm]
    exact List.take_of_length_le (by omega)
  have filled : (rest.take (size - 1)).map lowerChar ≠ [] := by
    rwa [ne_eq, List.map_eq_nil_iff]
  refine ⟨_, parsed, ?_⟩
  rw [parseEmailIn_eq _ _ positive, separated_of_near free near]
  dsimp only
  rw [same, vsetDefaultDomain_of_ne filled, shortName, shortRest]
  split
  · rw [Option.map_some, userString, domainString, lowerit, lowerit, shortName, shortRest]
    rfl
  · rfl

theorem readAlike_of_near (free : Free '@' name) (near : name.length < 156)
    (plain : Free nul (name ++ '@' :: rest)) (positive : 0 < size)
    (agree : ParsersAgree environment size (name ++ '@' :: rest)) :
    ReadAlike size (name ++ '@' :: rest) ∨ Defaulted environment size (name ++ '@' :: rest) := by
  rcases Classical.em (Invalid (name.take (size - 1))
      ((rest.take (155 - name.length)).take (size - 1))) with invalid | valid
  · exact .inl (.invalid rfl free near invalid)
  · have accepts : (isUsernameValid (name.take (size - 1)) &&
        isDomainValid ((rest.take (155 - name.length)).take (size - 1))) = true := by
      rw [Bool.and_eq_true]
      rw [Invalid, not_or, Bool.not_eq_false, Bool.not_eq_false] at valid
      exact valid
    rcases agree (List.replicate size nul) (List.replicate size nul) List.length_replicate
      List.length_replicate with ⟨parsed, safely, same⟩
    rcases @parseEmailSafe_at environment _ _ _ _ _ free plain positive List.length_replicate
      List.length_replicate with ⟨userAfter, domainAfter, -, string, ran⟩
    rw [parseEmailIn_eq _ _ positive, separated_of_near free near] at same
    dsimp only at same
    rw [if_pos accepts, ← Except.ok.inj (ran.symm.trans safely)] at same
    -- the safe parser accepts too, with its own domain
    rcases map_eq_ok same with ⟨set, found, equal⟩
    split at equal
    · next both =>
        have domains : set = lowerit (rest.take (size - 1)) := by
          rw [← string]
          exact congrArg Prod.snd (Option.some.inj equal)
        rw [domains] at found
        rcases Classical.em ((rest.take (155 - name.length)).take (size - 1) = []) with none | some_
        · apply Or.inr
          rw [none, List.map_nil] at found
          rw [Bool.and_eq_true] at both
          refine .mk rfl free ?_ ?_ both.2 found
          · have short : (name.take (size - 1)).length ≤ 156 := by
              rw [List.length_take]
              omega
            rw [separated_of_near free near]
            exact (List.take_of_length_le short).symm
          · rw [separated_of_near free near]
            exact none
        · have filled : ((rest.take (155 - name.length)).take (size - 1)).map lowerChar ≠ [] := by
            rwa [ne_eq, List.map_eq_nil_iff]
          rw [vsetDefaultDomain_of_ne filled] at found
          have lengths := congrArg List.length (Except.ok.inj found)
          rw [lowerit, List.length_map, List.length_map, take_comm] at lengths
          simp only [List.length_take] at lengths
          have copied : rest.take (size - 1) ≠ [] := by
            intro none
            rw [take_comm, none] at some_
            exact some_ (List.take_nil)
          apply Or.inl (ReadAlike.whole rfl free copied _)
          rw [List.length_take]
          omega
    · cases equal

end Near

section Far

variable {environment : Environment} {size : Nat} {email : List Char}

theorem separated_fst_front (text : List Char) : (separated text).1 <+: text := by
  rw [separated]
  split
  · exact List.takeWhile_prefix _
  · exact List.prefix_rfl

/-- The name in front of an `@` that comes late, as it is cut. -/
theorem take_of_far {name rest : List Char} (far : 156 ≤ name.length) :
    (name.take (size - 1)).take 156 = ((name ++ '@' :: rest).take 156).take (size - 1) := by
  rw [List.take_append_of_le_length far, take_comm]

theorem parsersAgree_of_invalidFar (plain : Free nul email) (positive : 0 < size)
    (nonempty : email ≠ []) (free : Free '@' (email.take 156))
    (invalid : Invalid ((separated (email.take 156)).1.take (size - 1))
      ((separated (email.take 156)).2.take (size - 1)))
    (refused : isUsernameValid ((email.take 156).take (size - 1)) = false ∨ ∃ name rest,
      email = name ++ '@' :: rest ∧ Free '@' name ∧
        isDomainValid ((rest.take (size - 1)).take 156) = false) :
    ParsersAgree environment size email := by
  intro user domain userSize domainSize
  have refuses : parseEmailSafe environment email user domain = .ok none := by
    rcases near_or_far email with ⟨name, rest, rfl, -, near⟩ | ⟨-, none | ⟨name, rest, rfl, at_⟩⟩
    · rw [take_of_near near, free_append, free_cons] at free
      exact absurd rfl free.2.1
    · rcases refused with badName | ⟨name, rest, rfl, -⟩
      · exact parseEmailSafe_refuses none plain nonempty positive userSize
          (take_comm (size - 1) 156 email ▸ badName)
      · exact absurd (List.mem_append_right _ List.mem_cons_self) none
    · rcases @parseEmailSafe_at environment _ _ _ _ _ at_.1 plain positive userSize domainSize
        with ⟨userAfter, domainAfter, -, -, parsed⟩
      rw [parsed, if_neg]
      rw [Bool.not_eq_true, Bool.and_eq_false_iff]
      rcases refused with badName | ⟨other, behind, equal, otherFree, badRest⟩
      · apply Or.inl
        rwa [take_of_far at_.2]
      · have same : rest = behind := (append_cons_inj at_.1 otherFree equal).2
        exact .inr (same ▸ badRest)
  refine ⟨none, refuses, ?_⟩
  rw [parseEmailIn_eq _ _ positive]
  dsimp only
  rw [if_neg]
  · rfl
  · rw [Bool.not_eq_true, Bool.and_eq_false_iff]
    exact invalid

theorem parsersAgree_of_sameFar {name rest : List Char} (free : Free '@' name)
    (far : 156 ≤ name.length) (plain : Free nul (name ++ '@' :: rest)) (positive : 0 < size)
    (names : (separated ((name ++ '@' :: rest).take 156)).1.take (size - 1) =
      ((name ++ '@' :: rest).take 156).take (size - 1))
    (nonempty : (separated ((name ++ '@' :: rest).take 156)).2.take (size - 1) ≠ [])
    (domains : ((separated ((name ++ '@' :: rest).take 156)).2.take (size - 1)).map lowerChar =
      lowerit (rest.take (size - 1))) : ParsersAgree environment size (name ++ '@' :: rest) := by
  intro user domain userSize domainSize
  rcases @parseEmailSafe_at environment _ _ _ _ _ free plain positive userSize domainSize with
    ⟨userAfter, domainAfter, userString, domainString, parsed⟩
  have filled : ((separated ((name ++ '@' :: rest).take 156)).2.take (size - 1)).map
      lowerChar ≠ [] := by rwa [ne_eq, List.map_eq_nil_iff]
  refine ⟨_, parsed, ?_⟩
  rw [parseEmailIn_eq _ _ positive]
  dsimp only
  rw [vsetDefaultDomain_of_ne filled, domains, names, ← take_of_far far, ← isDomainValid_map
    ((separated ((name ++ '@' :: rest).take 156)).2.take (size - 1)), domains,
    isDomainValid_lowerit]
  split
  · rw [Option.map_some, userString, domainString]
    rfl
  · rfl

/-- The default domain is the same as what the safe parser copies. -/
theorem parsersAgree_of_defaulted (plain : Free nul email) (positive : 0 < size)
    (defaulted : Defaulted environment size email) : ParsersAgree environment size email := by
  rcases defaulted with ⟨equal, free, names, none, valid, set⟩
  rename_i name rest
  subst equal
  intro user domain userSize domainSize
  rcases @parseEmailSafe_at environment _ _ _ _ _ free plain positive userSize domainSize with
    ⟨userAfter, domainAfter, userString, domainString, parsed⟩
  refine ⟨_, parsed, ?_⟩
  rw [parseEmailIn_eq _ _ positive]
  dsimp only
  rw [names, none, List.map_nil, set, valid]
  split
  · next accepts =>
      rw [Bool.and_eq_true] at accepts
      rw [if_pos (by rw [accepts.1]; rfl), Option.map_some, userString, domainString]
      rfl
  · next refuses =>
      have invalid : isUsernameValid ((name.take (size - 1)).take 156) = false := by
        cases named : isUsernameValid ((name.take (size - 1)).take 156) with
        | false => rfl
        | true => exact absurd (by rw [named]; rfl) refuses
      rw [if_neg (by rw [invalid]; exact Bool.false_ne_true)]
      rfl

theorem parseEmailIn_nil (environment : Environment) (size : Nat) :
    parseEmailIn environment size [] =
      (vsetDefaultDomain environment []).map fun domain => some ([], domain) := by
  simp [parseEmailIn, parseEmail, lowerit, atchars, isUsernameValid, isDomainValid]

theorem invalid_of_parseEmailIn (positive : 0 < size)
    (refused : parseEmailIn environment size email = .ok none) :
    Invalid ((separated (email.take 156)).1.take (size - 1))
      ((separated (email.take 156)).2.take (size - 1)) := by
  rw [parseEmailIn_eq _ _ positive] at refused
  dsimp only at refused
  split at refused
  · rcases map_eq_ok refused with ⟨set, -, equal⟩
    cases equal
  · next refuses =>
      rw [Bool.not_eq_true, Bool.and_eq_false_iff] at refuses
      exact refuses

theorem parts_of_parseEmailIn {user domain : List Char} (positive : 0 < size)
    (accepted : parseEmailIn environment size email = .ok (some (user, domain))) :
    user = ((separated (email.take 156)).1.take (size - 1)).map lowerChar ∧
      vsetDefaultDomain environment
        (((separated (email.take 156)).2.take (size - 1)).map lowerChar) = .ok domain := by
  rw [parseEmailIn_eq _ _ positive] at accepted
  dsimp only at accepted
  split at accepted
  · rcases map_eq_ok accepted with ⟨set, found, equal⟩
    cases equal
    exact ⟨rfl, found⟩
  · cases accepted

/-- Without an `@` the safe parser can only refuse the name. -/
theorem readAlike_of_none (free : Free '@' email) (plain : Free nul email) (positive : 0 < size)
    (nonempty : email ≠ []) (agree : ParsersAgree environment size email) :
    ReadAlike size email := by
  have front : Free '@' (email.take 156) := fun member => free (List.mem_of_mem_take member)
  rcases agree (List.replicate size nul) (List.replicate size 'a') List.length_replicate
    List.length_replicate with ⟨parsed, safely, same⟩
  cases valid : isUsernameValid ((email.take (size - 1)).take 156) with
  | false =>
      rw [parseEmailSafe_refuses free plain nonempty positive List.length_replicate valid] at safely
      cases safely
      rw [take_comm] at valid
      exact .invalidFar nonempty front (invalid_of_parseEmailIn positive same) (.inl valid)
  | true =>
      rw [parseEmailSafe_faults free plain nonempty positive List.length_replicate valid] at safely
      cases safely

theorem eq_of_prefixes {left right text : List Char} (leftPrefix : left <+: text)
    (rightPrefix : right <+: text) (lengths : left.length = right.length) : left = right := by
  rw [List.prefix_iff_eq_take.mp leftPrefix, List.prefix_iff_eq_take.mp rightPrefix, lengths]

theorem readAlike_of_far {name rest : List Char} (free : Free '@' name)
    (far : 156 ≤ name.length) (plain : Free nul (name ++ '@' :: rest)) (positive : 0 < size)
    (agree : ParsersAgree environment size (name ++ '@' :: rest)) :
    ReadAlike size (name ++ '@' :: rest) ∨ Defaulted environment size (name ++ '@' :: rest) := by
  have front : Free '@' ((name ++ '@' :: rest).take 156) := by
    rw [List.take_append_of_le_length far]
    exact fun member => free (List.mem_of_mem_take member)
  have outcome : parseEmailIn environment size (name ++ '@' :: rest) =
      .ok (if isUsernameValid (((name ++ '@' :: rest).take 156).take (size - 1)) &&
          isDomainValid ((rest.take (size - 1)).take 156) then
        some (lowerit (name.take (size - 1)), lowerit (rest.take (size - 1)))
      else none) := by
    rcases agree (List.replicate size nul) (List.replicate size nul) List.length_replicate
      List.length_replicate with ⟨parsed, safely, same⟩
    rcases @parseEmailSafe_at environment _ _ _ _ _ free plain positive
      List.length_replicate List.length_replicate with
      ⟨userAfter, domainAfter, userString, domainString, ran⟩
    have cut : ((name ++ '@' :: rest).take 156).take (size - 1) =
        (name.take (size - 1)).take 156 := (take_of_far far).symm
    rw [same, ← Except.ok.inj (ran.symm.trans safely), cut, ← userString, ← domainString]
    cases isUsernameValid ((name.take (size - 1)).take 156) &&
        isDomainValid ((rest.take (size - 1)).take 156) with
    | true => rfl
    | false => rfl
  cases accepts : isUsernameValid (((name ++ '@' :: rest).take 156).take (size - 1)) &&
      isDomainValid ((rest.take (size - 1)).take 156) with
  | false =>
      rw [accepts] at outcome
      apply Or.inl (ReadAlike.invalidFar (by simp) front
        (invalid_of_parseEmailIn positive outcome) _)
      rcases Bool.and_eq_false_iff.mp accepts with badName | badRest
      · exact .inl badName
      · exact .inr ⟨name, rest, rfl, free, badRest⟩
  | true =>
      simp only [accepts, if_true] at outcome
      rcases parts_of_parseEmailIn positive outcome with ⟨user, domain⟩
      rw [lowerit, take_of_far far] at user
      have lengths := congrArg List.length user
      rw [List.length_map, List.length_map] at lengths
      have names := eq_of_prefixes
        ((List.take_prefix _ _).trans (separated_fst_front ((name ++ '@' :: rest).take 156)))
        (List.take_prefix _ _) lengths.symm
      rcases Classical.em ((separated ((name ++ '@' :: rest).take 156)).2.take (size - 1) = [])
        with none | some_
      · rw [none, List.map_nil] at domain
        exact .inr (.mk rfl free (names.trans (take_of_far far).symm) none
          (Bool.and_eq_true_iff.mp accepts).2 domain)
      · have filled : ((separated ((name ++ '@' :: rest).take 156)).2.take (size - 1)).map
            lowerChar ≠ [] := by rwa [ne_eq, List.map_eq_nil_iff]
        rw [vsetDefaultDomain_of_ne filled] at domain
        exact .inl (.sameFar rfl free far names some_ (Except.ok.inj domain))

theorem readAlike_or_defaulted (plain : Free nul email) (positive : 0 < size)
    (agree : ParsersAgree environment size email) :
    ReadAlike size email ∨ Defaulted environment size email := by
  have nonempty : email ≠ [] := by
    rintro rfl
    rcases agree (List.replicate size nul) (List.replicate size nul) List.length_replicate
      List.length_replicate with ⟨parsed, safely, same⟩
    rw [parseEmailIn_nil] at same
    cases safely
    rcases map_eq_ok same with ⟨set, -, equal⟩
    cases equal
  rcases near_or_far email with ⟨name, rest, rfl, free, near⟩ | ⟨-, none | ⟨name, rest, rfl, far⟩⟩
  · exact readAlike_of_near free near plain positive agree
  · exact .inl (readAlike_of_none none plain positive nonempty agree)
  · exact readAlike_of_far far.1 far.2 plain positive agree

theorem parsersAgree_of_readAlike (plain : Free nul email) (positive : 0 < size)
    (alike : ReadAlike size email) : ParsersAgree environment size email := by
  cases alike with
  | whole equal free copied inside =>
      subst equal
      exact parsersAgree_of_whole free plain positive copied inside
  | invalid equal free near bad =>
      subst equal
      exact parsersAgree_of_invalid free near plain positive bad
  | invalidFar nonempty free bad refused =>
      exact parsersAgree_of_invalidFar plain positive nonempty free bad refused
  | sameFar equal free far names copied domains =>
      subst equal
      exact parsersAgree_of_sameFar free far plain positive names copied domains

end Far

/-- There are two default domains. -/
theorem not_every_default (text : List Char) :
    ¬ ∀ value, vsetDefaultDomain (namedEnvironment value) [] = .ok text := by
  intro always
  have first : vsetDefaultDomain (namedEnvironment ⟨['a'], by decide⟩) [] = .ok ['a'] := by
    decide +kernel
  have second : vsetDefaultDomain (namedEnvironment ⟨['b'], by decide⟩) [] = .ok ['b'] := by
    decide +kernel
  have texts := (first.symm.trans (always _)).trans ((second.symm.trans (always _)).symm)
  cases texts

/-- With every default domain the parsers agree exactly on the addresses that they read alike, and
with one of them also on those that have it behind the `@`. -/
theorem parseEmailSafe_agrees_iff (size : Nat) (email : CString) (positive : 0 < size) :
    (∀ environment, ParsersAgree environment size email.val ↔
      ReadAlike size email.val ∨ Defaulted environment size email.val) ∧
    ((∀ environment, ParsersAgree environment size email.val) ↔ ReadAlike size email.val) := by
  rcases email with ⟨email, plain⟩
  dsimp only
  constructor
  · intro environment
    constructor
    · exact readAlike_or_defaulted plain positive
    · rintro (alike | defaulted)
      · exact parsersAgree_of_readAlike plain positive alike
      · exact parsersAgree_of_defaulted plain positive defaulted
  · constructor
    · intro agree
      by_contra differ
      -- all default domains would be the text behind the first `@`
      have found (value : CString) : Defaulted (namedEnvironment value) size email :=
        (readAlike_or_defaulted plain positive (agree (namedEnvironment value))).resolve_left differ
      rcases found ⟨[], by decide⟩ with ⟨equal, free, -, -, -, -⟩
      rename_i name rest
      apply not_every_default (lowerit (rest.take (size - 1)))
      intro value
      rcases found value with ⟨other, otherFree, -, -, -, set⟩
      rw [equal] at other
      rwa [(append_cons_inj free otherFree other).2]
    · intro alike environment
      exact parsersAgree_of_readAlike plain positive alike

/-- An ordinary address, and one without a domain where the default domain is empty too. -/
theorem parseEmailSafe_agrees_ordinary :
    ParsersAgree (namedEnvironment ⟨['a'], by decide⟩) 60 ['A', '@', 'b', '.', 'c'] ∧
      ParsersAgree (namedEnvironment ⟨[], by decide⟩) 60 ['A', '@'] := by
  constructor
  · exact (parseEmailSafe_agrees_iff 60 ⟨['A', '@', 'b', '.', 'c'], by decide⟩ (by decide)).2.mpr
      (.whole (show ['A', '@', 'b', '.', 'c'] = ['A'] ++ '@' :: ['b', '.', 'c'] from rfl)
        (by decide) (by decide) (by decide)) _
  · exact ((parseEmailSafe_agrees_iff 60 ⟨['A', '@'], by decide⟩ (by decide)).1 _).mpr
      (.inr (.mk (show ['A', '@'] = ['A'] ++ '@' :: [] from rfl) (by decide) (by decide +kernel)
        (by decide +kernel) (by decide) (by decide +kernel)))

/-- A `%` separates the parts for one of the parsers only. -/
theorem parseEmailSafe_differs_percent :
    parseEmail ['a'] 60 ['b', '%', 'c'] = some (['b'], ['c']) ∧
      parseEmailSafe (namedEnvironment ⟨['a'], by decide⟩) ['b', '%', 'c']
        (List.replicate 60 nul) (List.replicate 60 nul) = .ok none ∧
      ¬ ParsersAgree (namedEnvironment ⟨['a'], by decide⟩) 60 ['b', '%', 'c'] := by
  have accepted : parseEmail ['a'] 60 ['b', '%', 'c'] = some (['b'], ['c']) := by decide +kernel
  have refused : parseEmailSafe (namedEnvironment ⟨['a'], by decide⟩) ['b', '%', 'c']
      (List.replicate 60 nul) (List.replicate 60 nul) = .ok none := by decide +kernel
  have accepts : parseEmailIn (namedEnvironment ⟨['a'], by decide⟩) 60 ['b', '%', 'c'] =
      .ok (some (['b'], ['c'])) := by decide +kernel
  refine ⟨accepted, refused, ?_⟩
  intro agree
  rcases agree (List.replicate 60 nul) (List.replicate 60 nul) List.length_replicate
    List.length_replicate with ⟨parsed, ran, same⟩
  cases refused.symm.trans ran
  cases accepts.symm.trans same

end Vpopmail

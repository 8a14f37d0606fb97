import Vpopmail.Vldap.Passwd

/-! # Exact lookups in the ldap store

The names of users and aliases go into search filters as they are. A name
without a star finds its own entries alone; a star is admitted by
`is_username_valid` and finds others, and `alias_select` itself puts a star in
place of an alias that is named like the domain.
-/

namespace Vpopmail.Vldap

open Vpopmail Text Buffer Directory

/-! ## Names -/

/-- What `parse_email` admits, with a default domain that is a domain name. -/
structure Parsed (user domain : List Char) : Prop where
  userValid : isUsernameValid user = true
  userShort : user.length ≤ 156
  domainValid : isDomainValid domain = true
  domainShort : domain.length ≤ 156

theorem parsed_parseEmail {defaultDomain email user domain : List Char} {buffSize : Nat}
    (defaultValid : isDomainValid defaultDomain = true)
    (defaultShort : defaultDomain.length ≤ maxPwDomain)
    (parsed : parseEmail defaultDomain buffSize email = some (user, domain)) :
    Parsed user domain := by
  have short : (lowerit email).length ≤ 156 := by
    rw [lowerit, List.length_map, List.length_take]
    omega
  have limit : maxPwDomain = 96 := rfl
  have cases : ∀ front behind : List Char, front.length ≤ 156 → behind.length ≤ 156 →
      (if !isUsernameValid front then none
        else if !isDomainValid behind then none
        else some (front, if behind = [] then defaultDomain else behind)) = some (user, domain) →
      Parsed user domain := by
    intro front behind frontShort behindShort given
    split at given
    · cases given
    · rename_i userValid
      split at given
      · cases given
      · rename_i domainValid
        cases given
        refine ⟨by simpa using userValid, frontShort, ?_, ?_⟩
        · split
          · exact defaultValid
          · simpa using domainValid
        · split
          · omega
          · exact behindShort
  rw [parseEmail] at parsed
  cases found : atchars.find? fun char => (lowerit email).contains char with
  | none =>
      simp only [found] at parsed
      apply cases _ _ _ (Nat.zero_le _) parsed
      rw [List.length_take]
      omega
  | some char =>
      simp only [found] at parsed
      apply cases _ _ _ _ parsed
      · rw [List.length_take]
        omega
      · rw [List.length_take, List.length_drop]
        omega

theorem valueChar_of_usernameChar {char : Char} (valid : usernameChar char = true) :
    valueChar char = true := by
  simp only [usernameChar, Bool.or_eq_true, Bool.and_eq_true, decide_eq_true_eq] at valid
  have other : ∀ symbol : Char, symbol.toNat = 40 ∨ symbol.toNat = 41 ∨ symbol.toNat = 92 ∨
      symbol.toNat = 0 → char ≠ symbol := by
    intro symbol code same
    rw [same] at valid
    omega
  have open' := other '(' (by decide)
  have close := other ')' (by decide)
  have escape := other '\\' (by decide)
  have ended := other nul (by decide)
  simp [valueChar, open', close, escape, ended]

theorem domainChar_codes {char : Char} (valid : domainChar char = true) :
    char ≠ '*' ∧ usernameChar char = true := by
  simp only [domainChar, Bool.or_eq_true, Bool.and_eq_true, decide_eq_true_eq] at valid
  constructor
  · rintro rfl
    exact absurd valid (by decide)
  · simp only [usernameChar, Bool.or_eq_true, Bool.and_eq_true, decide_eq_true_eq]
    omega

theorem lowerChar_eq_toLower (char : Char) : lowerChar char = char.toLower := by
  by_cases upper : 65 ≤ char.toNat ∧ char.toNat ≤ 90
  · apply Char.ext
    rw [lowerChar, if_pos upper]
    have inside : char.val ≥ 'A'.val ∧ char.val ≤ 'Z'.val := by
      constructor
      · exact UInt32.le_iff_toNat_le.mpr upper.1
      · exact UInt32.le_iff_toNat_le.mpr upper.2
    rw [toLower_of_upper inside]
    apply UInt32.toNat_inj.mp
    have code : (Char.ofNat (char.toNat + 32)).toNat = char.toNat + 32 := by
      rw [Char.ofNat, dif_pos (Or.inl (by omega))]
      rfl
    have step : ('a'.val - 'A'.val).toNat = 32 := by decide
    have sum : (char.val + ('a'.val - 'A'.val)).toNat = char.toNat + 32 := by
      rw [UInt32.toNat_add, step, Char.toNat_val]
      exact Nat.mod_eq_of_lt (by omega)
    exact code.trans sum.symm
  · have outside : ¬(char.val ≥ 'A'.val ∧ char.val ≤ 'Z'.val) := by
      intro inside
      exact upper ⟨UInt32.le_iff_toNat_le.mp inside.1, UInt32.le_iff_toNat_le.mp inside.2⟩
    rw [lowerChar, if_neg upper, toLower_of_other outside]

theorem fold_lowerit {text : List Char} (short : text.length ≤ 156) :
    fold (lowerit text) = fold text := by
  rw [lowerit, List.take_of_length_le short, fold, fold, List.map_map]
  apply List.map_congr_left
  intro char _
  rw [Function.comp_apply, lowerChar_eq_toLower, toLower_toLower]

theorem valueChar_toLower {char : Char} (plain : valueChar char = true) :
    valueChar char.toLower = true := by
  simp only [valueChar, Bool.and_eq_true, decide_eq_true_eq] at plain ⊢
  exact ⟨⟨⟨fun same => plain.1.1.1 (eq_of_toLower same (by decide)),
    fun same => plain.1.1.2 (eq_of_toLower same (by decide))⟩,
    fun same => plain.1.2 (eq_of_toLower same (by decide))⟩,
    fun same => plain.2 (eq_of_toLower same (by decide))⟩

section Values

variable {user domain : List Char} (parsed : Parsed user domain)

include parsed

theorem Parsed.userValues : ∀ char ∈ user, valueChar char = true := by
  intro char member
  exact valueChar_of_usernameChar (List.all_eq_true.mp parsed.userValid char member)

theorem Parsed.loweredValues : ∀ char ∈ lowerit user, valueChar char = true := by
  intro char member
  rcases List.mem_map.mp member with ⟨other, inside, rfl⟩
  rw [lowerChar_eq_toLower]
  exact valueChar_toLower (parsed.userValues other (List.mem_of_mem_take inside))

theorem Parsed.domainValues : ∀ char ∈ domain, valueChar char = true := by
  intro char member
  exact valueChar_of_usernameChar
    (domainChar_codes (List.all_eq_true.mp parsed.domainValid char member)).2

theorem Parsed.free_domain : Free '*' domain := by
  intro member
  exact (domainChar_codes (List.all_eq_true.mp parsed.domainValid '*' member)).1 rfl

end Values

/-! ## Filters -/

/-- The filter for a user, as the server reads it. -/
def userAssertions (user : List Char) : Filter :=
  [⟨"objectclass".toList, "qmailUser".toList⟩, ⟨"uid".toList, user⟩]

theorem readFilter_userFilter {user : List Char}
    (plain : ∀ char ∈ user, valueChar char = true) :
    readFilter (userFilter user) = some (userAssertions user) := by
  have text : userFilter user = '(' :: '&' :: ((userAssertions user).map Assertion.text).flatten ++
      [')'] := by
    rw [userFilter, snprintf, List.take_of_length_le]
    · simp [userAssertions, Assertion.text]
    · simp only [List.length_append]
      have front : "(&(objectclass=qmailUser)(uid=".toList.length = 30 := by decide
      have close : "))".toList.length = 2 := by decide
      omega
  rw [text]
  apply readFilter_conjunction
  intro assertion member
  simp only [userAssertions, List.mem_cons, List.not_mem_nil, or_false] at member
  rcases member with rfl | rfl
  · constructor
    · exact List.all_eq_true.mp (show "objectclass".toList.all attributeChar = true by decide)
    · exact List.all_eq_true.mp (show "qmailUser".toList.all valueChar = true by decide)
  · constructor
    · exact List.all_eq_true.mp (show "uid".toList.all attributeChar = true by decide)
    · exact plain

/-- The value that `alias_select` asks for. -/
def aliasPattern (name domain : List Char) : List Char :=
  (if fold name ≠ fold domain then name else ['*']) ++ '@' :: domain

theorem Parsed.readFilter_aliasFilter {name domain : List Char} (parsed : Parsed name domain) :
    readFilter (aliasFilter name domain) = some [⟨"aa".toList, aliasPattern name domain⟩] := by
  have nameShort : (if fold name ≠ fold domain then name else ['*']).length ≤ 156 := by
    split
    · exact parsed.userShort
    · decide
  have text : aliasFilter name domain =
      (Assertion.mk "aa".toList (aliasPattern name domain)).text := by
    rw [aliasFilter, snprintf, List.take_of_length_le]
    · simp [aliasPattern, Assertion.text]
    · have front : "(aa=".toList.length = 4 := by decide
      have domainShort := parsed.domainShort
      simp only [List.length_append, List.length_cons, List.length_nil]
      omega
  rw [text]
  apply readFilter_assertion
  refine ⟨List.all_eq_true.mp (show "aa".toList.all attributeChar = true by decide), ?_⟩
  intro char member
  rcases List.mem_append.mp member with front | behind
  · split at front
    · exact parsed.userValues char front
    · rw [List.mem_singleton.mp front]
      decide
  · rcases List.mem_cons.mp behind with rfl | inside
    · decide
    · exact parsed.domainValues char inside

theorem holds_userAssertions (user : List Char) (msg : Entry) :
    Filter.holds (userAssertions user) msg = true ↔
      (Assertion.mk "objectclass".toList "qmailUser".toList).holds msg = true ∧
        ∃ value ∈ msg.values "uid".toList, wildcard (fold user) (fold value) = true := by
  simp only [userAssertions, Filter.holds, List.all_cons, List.all_nil, Bool.and_true,
    Bool.and_eq_true]
  exact and_congr_right fun _ => List.any_eq_true

/-! ## Lookups -/

theorem authGetpw_of_search {site : Site} {directory others : List Entry} {msg : Entry}
    {user domain : List Char} (owns : site.owns domain = true) (connected : site.connected = true)
    (searched : site.server.search directory .subtree
      (composeDn site (site.assign (lowerit domain)).1) (userFilter (lowerit user)) =
        some (msg :: others)) : authGetpw site directory user domain = recordOf site msg := by
  rw [authGetpw, owns, connected, Bool.not_true, if_neg Bool.false_ne_true,
    if_neg Bool.false_ne_true, searched]

theorem aliasSelect_of_search {site : Site} {directory found : List Entry}
    {name domain : List Char} (connected : site.connected = true)
    (searched : site.server.search directory .subtree
      (snprintf 512 ("ou=valias,".toList ++ site.basedn)) (aliasFilter name domain) =
        some found) :
    aliasSelect site directory name domain = found.flatMap fun msg =>
      if msg.values "aa".toList = [] then [] else msg.values "di".toList := by
  rw [aliasSelect, connected, Bool.not_true, if_neg Bool.false_ne_true, searched]

/-- A record that is found belongs to an entry that the name matches. -/
theorem authGetpw_found {site : Site} {within : Scope → (base dn : List Char) → Bool}
    (standard : site.server.Standard within) {user : List Char}
    (plain : ∀ char ∈ lowerit user, valueChar char = true) {directory : List Entry}
    {domain : List Char} {record : UserRecord}
    (found : authGetpw site directory user domain = some record) :
    ∃ msg ∈ directory, recordOf site msg = some record ∧
      Filter.holds (userAssertions (lowerit user)) msg = true := by
  rw [authGetpw] at found
  split at found
  · cases found
  split at found
  · cases found
  split at found
  · rename_i msg others searched
    have member : msg ∈ msg :: others := List.mem_cons_self
    rw [standard.search (readFilter_userFilter plain) searched, List.mem_filter,
      Bool.and_eq_true] at member
    exact ⟨msg, member.1, found, member.2.2⟩
  · cases found

/-- Every line that `alias_select` returns belongs to an entry that its pattern matches. -/
theorem aliasSelect_found {site : Site} {within : Scope → (base dn : List Char) → Bool}
    (standard : site.server.Standard within) {directory : List Entry}
    {name domain line : List Char} (parsed : Parsed name domain)
    (selected : line ∈ aliasSelect site directory name domain) :
    ∃ msg ∈ directory, line ∈ msg.values "di".toList ∧
      ∃ value ∈ msg.values "aa".toList,
        wildcard (fold (aliasPattern name domain)) (fold value) = true := by
  rw [aliasSelect] at selected
  split at selected
  · cases selected
  split at selected
  · cases selected
  · rename_i found searched
    rcases List.mem_flatMap.mp selected with ⟨msg, member, own⟩
    split at own
    · cases own
    · rw [standard.search parsed.readFilter_aliasFilter searched, List.mem_filter,
        Bool.and_eq_true] at member
      have holds := member.2.2
      simp only [Filter.holds, List.all_cons, List.all_nil, Bool.and_true] at holds
      exact ⟨msg, member.1, own, List.any_eq_true.mp holds⟩

/-- What `auth_getpw` finds is stored under the name. -/
def GetpwExact (site : Site) (directory : List Entry) (user domain : List Char) : Prop :=
  ∀ record, authGetpw site directory user domain = some record →
    ∃ msg ∈ directory, recordOf site msg = some record ∧
      ∃ value ∈ msg.values "uid".toList, fold value = fold user

/-- What `alias_select` returns is stored under the alias. -/
def SelectExact (site : Site) (directory : List Entry) (name domain : List Char) : Prop :=
  ∀ line ∈ aliasSelect site directory name domain,
    ∃ msg ∈ directory, line ∈ msg.values "di".toList ∧
      ∃ value ∈ msg.values "aa".toList, fold value = fold (name ++ '@' :: domain)

/-- The configuration with another server. -/
def Site.on (site : Site) (server : Server) : Site := { site with server := server }

/-- A property of what every directory of every server gives. -/
def Everywhere (site : Site) (exact : Site → List Entry → Prop) : Prop :=
  ∀ server within, Server.Standard server within → ∀ directory, exact (site.on server) directory

section Exact

variable {site : Site} {user domain : List Char} (parsed : Parsed user domain)

include parsed

theorem getpwExact_of_free (starFree : Free '*' user) :
    Everywhere site fun site directory => GetpwExact site directory user domain := by
  intro server within standard directory record found
  rcases authGetpw_found standard parsed.loweredValues found with ⟨msg, member, read, holds⟩
  rcases ((holds_userAssertions _ msg).mp holds).2 with ⟨value, inside, matched⟩
  have free : Free '*' (fold user) := (free_fold (by decide) rfl).mpr starFree
  rw [fold_lowerit parsed.userShort, wildcard_of_free free] at matched
  exact ⟨msg, member, read, value, inside, matched⟩

theorem selectExact_of_free (starFree : Free '*' user) (other : fold user ≠ fold domain) :
    Everywhere site fun site directory => SelectExact site directory user domain := by
  intro server within standard directory line selected
  rcases aliasSelect_found standard parsed selected with ⟨msg, member, own, value, inside, matched⟩
  have pattern : aliasPattern user domain = user ++ '@' :: domain := by
    rw [aliasPattern, if_pos other]
  have free : Free '*' (user ++ '@' :: domain) :=
    free_append.mpr ⟨starFree, free_cons.mpr ⟨by decide, parsed.free_domain⟩⟩
  have foldFree : Free '*' (fold (user ++ '@' :: domain)) := (free_fold (by decide) rfl).mpr free
  rw [pattern, wildcard_of_free foldFree] at matched
  exact ⟨msg, member, own, value, inside, matched⟩

end Exact

/-! ## Names with a star -/

/-- A text with a filling in place of its stars. -/
def filled (pattern filling : List Char) : List Char :=
  pattern.flatMap fun char => if char = '*' then filling else [char]

theorem fold_filled (pattern filling : List Char) :
    fold (filled pattern filling) = filled (fold pattern) (fold filling) := by
  induction pattern with
  | nil => rfl
  | cons char pattern induction =>
      have split : fold (filled (char :: pattern) filling) =
          fold (if char = '*' then filling else [char]) ++ fold (filled pattern filling) := by
        simp [fold, filled]
      rw [split, induction]
      by_cases star : char = '*'
      · rw [star, if_pos rfl]
        rfl
      · have lower : char.toLower ≠ '*' := fun same => star (eq_of_toLower same (by decide))
        rw [if_neg star]
        simp [filled, fold, lower]

theorem wildcard_filled (pattern filling : List Char) :
    wildcard (fold pattern) (fold (filled pattern filling)) = true := by
  rw [fold_filled]
  exact wildcard_flatMap (fold pattern) (fold filling)

theorem free_filled {filling : List Char} (free : Free '*' filling) (pattern : List Char) :
    Free '*' (filled pattern filling) := by
  intro member
  rcases List.mem_flatMap.mp member with ⟨char, _, inside⟩
  split at inside
  · exact free inside
  · rename_i other
    exact other (List.mem_singleton.mp inside).symm

/-- An entry with three attributes. -/
def entryWith (dn : List Char) (first second third : Replacement) : Entry :=
  { dn := dn, attributes := fun _ => [] : Entry }.replaceAll [first, second, third]

/-- The entry of another user. -/
def otherUser (dn uid : List Char) : Entry :=
  entryWith dn ("objectclass".toList, ["qmailUser".toList]) ("uid".toList, [uid])
    ("userPassword".toList, [['x']])

/-- The entry of another alias. -/
def otherAlias (dn aa : List Char) : Entry :=
  entryWith dn ("objectclass".toList, ["valias".toList]) ("aa".toList, [aa]) ("di".toList, [['x']])

theorem values_otherUser (dn uid : List Char) : (otherUser dn uid).values "uid".toList = [uid] := by
  rfl

theorem values_otherAlias (dn aa : List Char) :
    (otherAlias dn aa).values "aa".toList = [aa] ∧
      (otherAlias dn aa).values "di".toList = [['x']] := ⟨rfl, rfl⟩

theorem exists_recordOf_otherUser (site : Site) (dn uid : List Char) :
    ∃ record, recordOf site (otherUser dn uid) = some record := by
  have stored : (otherUser dn uid).values "userPassword".toList = [['x']] := rfl
  simp only [recordOf, stored, values_otherUser, List.head?_cons, Option.bind_some, passwordOf,
    Option.map_some]
  exact ⟨_, rfl⟩

/-- A server with one entry, whose name is that of the search base. -/
theorem search_single {base text : List Char} {filter : Filter} {entry : Entry}
    (read : readFilter text = some filter) (named : entry.dn = base)
    (holds : filter.holds entry = true) :
    (Server.ofScopes textScopes).search [entry] .subtree base text = some [entry] := by
  have inside : textScopes .subtree base entry.dn = true := by
    rw [named]
    exact List.isSuffixOf_iff_suffix.mpr (List.suffix_refl _)
  simp only [Server.ofScopes, read, Option.map_some]
  rw [List.filter_cons_of_pos (by rw [inside, holds]; rfl), List.filter_nil]

section Stars

variable {site : Site} {user domain : List Char} (parsed : Parsed user domain)

include parsed

theorem free_of_getpwExact (owns : site.owns domain = true) (connected : site.connected = true)
    (everywhere : Everywhere site fun site directory => GetpwExact site directory user domain) :
    Free '*' user := by
  by_contra star
  let base := composeDn site (site.assign (lowerit domain)).1
  let other := otherUser base (filled user ['x'])
  have holds : Filter.holds (userAssertions (lowerit user)) other = true := by
    rw [holds_userAssertions]
    refine ⟨rfl, filled user ['x'], ?_, ?_⟩
    · rw [values_otherUser]
      exact List.mem_singleton_self _
    · rw [fold_lowerit parsed.userShort]
      exact wildcard_filled user ['x']
  rcases exists_recordOf_otherUser site base (filled user ['x']) with ⟨record, read⟩
  have found : authGetpw (site.on (Server.ofScopes textScopes)) [other] user domain =
      some record := by
    have searched := search_single (readFilter_userFilter parsed.loweredValues)
      (show other.dn = base from rfl) holds
    have ownsHere : (site.on (Server.ofScopes textScopes)).owns domain = true := owns
    rw [authGetpw_of_search ownsHere connected searched]
    exact read
  rcases everywhere _ _ (Server.standard_ofScopes textScopes) [other] record found with
    ⟨msg, member, _, value, inside, same⟩
  rw [List.mem_singleton.mp member, values_otherUser, List.mem_singleton] at inside
  rw [inside] at same
  have free : Free '*' (fold (filled user ['x'])) :=
    (free_fold (by decide) rfl).mpr (free_filled (by decide) user)
  rw [same] at free
  exact star ((free_fold (by decide) rfl).mp free)

/-- A pattern with a star returns the lines of another alias. -/
theorem not_selectExact (connected : site.connected = true) (filling : List Char)
    (different : fold (filled (aliasPattern user domain) filling) ≠ fold (user ++ '@' :: domain)) :
    ¬Everywhere site fun site directory => SelectExact site directory user domain := by
  intro everywhere
  let base := snprintf 512 ("ou=valias,".toList ++ site.basedn)
  let other := otherAlias base (filled (aliasPattern user domain) filling)
  have holds : Filter.holds [⟨"aa".toList, aliasPattern user domain⟩] other = true := by
    simp only [Filter.holds, List.all_cons, List.all_nil, Bool.and_true]
    apply List.any_eq_true.mpr
    refine ⟨filled (aliasPattern user domain) filling, ?_, wildcard_filled _ _⟩
    rw [(values_otherAlias _ _).1]
    exact List.mem_singleton_self _
  have selected : ['x'] ∈ aliasSelect (site.on (Server.ofScopes textScopes)) [other] user
      domain := by
    have searched := search_single parsed.readFilter_aliasFilter
      (show other.dn = base from rfl) holds
    have connectedHere : (site.on (Server.ofScopes textScopes)).connected = true := connected
    rw [aliasSelect_of_search connectedHere searched]
    exact List.mem_flatMap.mpr ⟨other, List.mem_singleton_self _, List.mem_singleton_self _⟩
  rcases everywhere _ _ (Server.standard_ofScopes textScopes) [other] _ selected with
    ⟨msg, member, _, value, inside, same⟩
  rw [List.mem_singleton.mp member, (values_otherAlias _ _).1, List.mem_singleton] at inside
  rw [inside] at same
  exact different same

theorem free_of_selectExact (connected : site.connected = true)
    (everywhere : Everywhere site fun site directory => SelectExact site directory user domain) :
    Free '*' user ∧ fold user ≠ fold domain := by
  have other : fold user ≠ fold domain := by
    intro same
    have pattern : aliasPattern user domain = '*' :: '@' :: domain := by
      rw [aliasPattern, if_neg (not_not.mpr same)]
      rfl
    apply not_selectExact parsed connected ('x' :: user) ?_ everywhere
    intro equal
    have lengths := congrArg List.length equal
    have kept : filled ('@' :: domain) ('x' :: user) = '@' :: domain := by
      have each : ∀ char ∈ '@' :: domain,
          (if char = '*' then 'x' :: user else [char]) = [char] := by
        intro char member
        rw [if_neg]
        rintro rfl
        rcases List.mem_cons.mp member with at' | inside
        · exact absurd at' (by decide)
        · exact parsed.free_domain inside
      rw [filled, List.flatMap_congr each, List.flatMap_singleton']
    have whole : filled (aliasPattern user domain) ('x' :: user) =
        'x' :: user ++ '@' :: domain := by
      rw [pattern]
      show ('x' :: user) ++ filled ('@' :: domain) ('x' :: user) = _
      rw [kept]
    rw [whole, fold, fold, List.length_map, List.length_map] at lengths
    simp at lengths
  refine ⟨?_, other⟩
  by_contra star
  have pattern : aliasPattern user domain = user ++ '@' :: domain := by
    rw [aliasPattern, if_pos other]
  apply not_selectExact parsed connected ['x'] ?_ everywhere
  rw [pattern]
  intro same
  have free : Free '*' (fold (filled (user ++ '@' :: domain) ['x'])) :=
    (free_fold (by decide) rfl).mpr (free_filled (by decide) _)
  rw [same] at free
  exact star (free_append.mp ((free_fold (by decide) rfl).mp free)).1

end Stars

/-- For a name and a domain from `parse_email`, `auth_getpw` is exact on every
directory exactly when there is no star in the name, and `alias_select` when
the name is not that of the domain either. -/
theorem lookups_exact_iff {site : Site} {defaultDomain email user domain : List Char}
    {buffSize : Nat} (defaultValid : isDomainValid defaultDomain = true)
    (defaultShort : defaultDomain.length ≤ maxPwDomain)
    (parsed : parseEmail defaultDomain buffSize email = some (user, domain))
    (owns : site.owns domain = true) (connected : site.connected = true) :
    (Everywhere site (fun site directory => GetpwExact site directory user domain) ↔
        Free '*' user) ∧
      (Everywhere site (fun site directory => SelectExact site directory user domain) ↔
        Free '*' user ∧ fold user ≠ fold domain) := by
  have names := parsed_parseEmail defaultValid defaultShort parsed
  constructor
  · constructor
    · exact free_of_getpwExact names owns connected
    · exact getpwExact_of_free names
  · constructor
    · exact free_of_selectExact names connected
    · intro plain
      exact selectExact_of_free names plain.1 plain.2

/-! ## Lookups at one site -/

def exampleSite : Site where
  build := ⟨true, false⟩
  encryption := exampleEncryption
  server := Server.ofScopes textScopes
  connected := true
  euid := 0
  assign := fun domain => (domain, 89)
  assignDir := fun domain => some ("/domains/".toList ++ domain)
  basedn := "o=vpopmail".toList
  limitsFlags := none

theorem lookups_exact_bob :
    (Everywhere exampleSite (fun site directory =>
        GetpwExact site directory "bob".toList "example.com".toList) ↔ Free '*' "bob".toList) ∧
      (Everywhere exampleSite (fun site directory =>
          SelectExact site directory "bob".toList "example.com".toList) ↔
        Free '*' "bob".toList ∧ fold "bob".toList ≠ fold "example.com".toList) :=
  have parsed : parseEmail "example.com".toList 156 "bob@example.com".toList =
      some ("bob".toList, "example.com".toList) := by decide
  lookups_exact_iff (by decide) (by decide) parsed rfl rfl

/-- `b*` finds the account of `bob`, and the alias `example.com` delivers to the
lines of `staff`. -/
theorem lookups_not_exact :
    parseEmail "example.com".toList 156 "b*@example.com".toList =
        some ("b*".toList, "example.com".toList) ∧
      (authGetpw exampleSite
          [otherUser "uid=bob, ou=example.com,o=vpopmail".toList "bob".toList] "b*".toList
            "example.com".toList).map UserRecord.pwName = some "bob".toList ∧
      parseEmail "example.com".toList 156 "example.com@example.com".toList =
        some ("example.com".toList, "example.com".toList) ∧
      aliasSelect exampleSite
          [otherAlias "aa=staff@example.com,ou=valias,o=vpopmail".toList
            "staff@example.com".toList] "example.com".toList "example.com".toList =
        [['x']] := by
  decide +kernel

end Vpopmail.Vldap

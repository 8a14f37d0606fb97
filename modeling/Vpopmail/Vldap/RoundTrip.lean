import Vpopmail.Vcdb.Rewriting
import Vpopmail.Vldap.ExactLookup

/-! # Round trips through the ldap store

What `auth_setpw` and `auth_adduser` write, `auth_getpw` finds again unless a
field is empty that the reader needs, a number is longer than its memory, or
another entry answers to the name first.
-/

namespace Vpopmail.Vldap

open Vpopmail Text Buffer Directory

/-! ## What is written and read -/

theorem head_safeStrdup (text : List Char) :
    (safeStrdup text).head? = if text = [] then none else some text := by
  rw [safeStrdup]
  split <;> rfl

theorem passwordOf_scheme (site : Site) (passwd : List Char) :
    passwordOf (scheme site ++ passwd) = if passwd = [] then none else some passwd := by
  rw [scheme]
  split <;> rfl

theorem snprintf_scheme (site : Site) (passwd : List Char) :
    snprintf (passwd.length + 7 + 1) (scheme site ++ passwd) = scheme site ++ passwd := by
  have short : (scheme site).length ≤ 7 := by
    rw [scheme]
    split <;> decide
  apply List.take_of_length_le
  rw [List.length_append]
  omega

section Attributes

variable (site : Site) (entry : Entry) (name passwd uid gid : List Char)
  (gecos dir shell clear : List (List Char))

theorem values_attributesOf {replacement : Replacement}
    (member : replacement ∈ attributesOf site name passwd uid gid gecos dir shell clear) :
    (entry.replaceAll (attributesOf site name passwd uid gid gecos dir shell clear)).values
      replacement.1 = replacement.2 := by
  apply values_replaceAll ?_ member
  rw [attributesOf]
  split
  · simp only [List.map_append, List.map_cons, List.map_nil]
    decide
  · simp only [List.map_append, List.map_cons, List.map_nil]
    decide

/-- The values of a written entry. -/
structure Written (after : Entry) : Prop where
  names : after.values "uid".toList = safeStrdup name
  userPassword : after.values "userPassword".toList = [scheme site ++ passwd]
  qmailUid : after.values "qmailUID".toList = [uid]
  qmailGid : after.values "qmailGID".toList = [gid]
  qmaildomain : after.values "qmaildomain".toList = gecos
  mailMessageStore : after.values "mailMessageStore".toList = dir
  mailQuota : after.values "mailQuota".toList = shell
  clearPassword : site.build.clearPass = true → after.values "clearPassword".toList = clear
  objectclass : after.values "objectclass".toList = ["qmailUser".toList]

theorem written_attributesOf : Written site name passwd uid gid gecos dir shell clear
    (entry.replaceAll (attributesOf site name passwd uid gid gecos dir shell clear)) := by
  have read : ∀ replacement ∈ attributesOf site name passwd uid gid gecos dir shell clear,
      (entry.replaceAll (attributesOf site name passwd uid gid gecos dir shell clear)).values
        replacement.1 = replacement.2 := fun replacement member =>
    values_attributesOf site entry name passwd uid gid gecos dir shell clear member
  have front := fun replacement member =>
    read replacement (List.mem_append_left _ (List.mem_append_left _ member))
  refine ⟨front _ (.head _), ?_, front _ (.tail _ (.tail _ (.head _))),
    front _ (.tail _ (.tail _ (.tail _ (.head _)))),
    front _ (.tail _ (.tail _ (.tail _ (.tail _ (.head _))))),
    front _ (.tail _ (.tail _ (.tail _ (.tail _ (.tail _ (.head _)))))),
    front _ (.tail _ (.tail _ (.tail _ (.tail _ (.tail _ (.tail _ (.head _))))))), ?_,
    read _ (List.mem_append_right _ (.head _))⟩
  · rw [← snprintf_scheme]
    exact front _ (.tail _ (.head _))
  · intro clearPass
    apply read ("clearPassword".toList, clear)
    apply List.mem_append_left
    apply List.mem_append_right
    rw [if_pos clearPass]
    exact .head _

variable {site name passwd uid gid gecos dir shell clear}

/-- The record of an entry that has been written. -/
theorem recordOf_written {after : Entry}
    (written : Written site name passwd uid gid gecos dir shell clear after) (named : name ≠ []) :
    recordOf site after =
      if passwd = [] then none
      else some
        { pwName := name
          pwPasswd := passwd
          pwUid := BitVec.ofInt 32 (Decimal.atoi uid)
          pwGid := BitVec.ofInt 32 (Decimal.atoi gid)
          pwFlags := setflags site (BitVec.ofInt 32 (Decimal.atoi gid))
          pwGecos := gecos.head?
          pwDir := dir.head?
          pwShell := shell.head?.getD []
          pwClearPasswd := if site.build.clearPass then clear.head? else none } := by
  have names : (after.values "uid".toList).head? = some name := by
    rw [written.names, head_safeStrdup, if_neg named]
  have clears : (if site.build.clearPass then (after.values "clearPassword".toList).head?
      else none) = if site.build.clearPass then clear.head? else none := by
    split
    · rename_i clearPass
      rw [written.clearPassword clearPass]
    · rfl
  simp only [recordOf, names, written.userPassword, written.qmailUid, written.qmailGid,
    written.qmaildomain, written.mailMessageStore, written.mailQuota, clears, List.head?_cons,
    Option.bind_some, Option.map_some, Option.getD_some, passwordOf_scheme]
  split <;> rfl

end Attributes

/-! ## The first entry that answers -/

/-- The server, as far as its behaviour is documented, and a process that reads
the domain through an open connection. -/
structure Site.Serves (site : Site) (within : Scope → (base dn : List Char) → Bool)
    (domain : List Char) : Prop where
  standard : site.server.Standard within
  answers : site.server.Answers
  owns : site.owns domain = true
  connected : site.connected = true
  /-- The domain is no alias. -/
  real : (site.assign (lowerit domain)).1 = domain

/-- The entry answers to a name in the search of `auth_getpw`. -/
def Answers (site : Site) (within : Scope → (base dn : List Char) → Bool)
    (user domain : List Char) (entry : Entry) : Bool :=
  within .subtree (composeDn site domain) entry.dn &&
    Filter.holds (userAssertions (lowerit user)) entry

section Search

variable {site : Site} {within : Scope → (base dn : List Char) → Bool} {user domain : List Char}
  (serves : site.Serves within domain) (parsed : Parsed user domain)

include serves parsed

/-- `auth_getpw` reads the first entry that answers. -/
theorem authGetpw_eq (directory : List Entry) :
    authGetpw site directory user domain =
      (directory.find? (Answers site within user domain)).bind (recordOf site) := by
  rcases serves.answers directory .subtree (composeDn site domain) _ _
    (readFilter_userFilter parsed.loweredValues) with ⟨found, searched⟩
  have entries := serves.standard.search (readFilter_userFilter parsed.loweredValues) searched
  rw [authGetpw, serves.owns, serves.connected, Bool.not_true, if_neg Bool.false_ne_true,
    if_neg Bool.false_ne_true, serves.real, searched, entries, ← List.head?_filter]
  have same : (fun entry : Entry => within .subtree (composeDn site domain) entry.dn &&
      Filter.holds (userAssertions (lowerit user)) entry) = Answers site within user domain := rfl
  rw [same]
  cases directory.filter (Answers site within user domain) <;> rfl

omit serves in
/-- A written entry answers to its name. -/
theorem Written.answers {passwd uid gid : List Char} {gecos dir shell clear : List (List Char)}
    {entry : Entry} (written : Written site user passwd uid gid gecos dir shell clear entry)
    (named : user ≠ []) (inside : within .subtree (composeDn site domain) entry.dn = true) :
    Answers site within user domain entry = true := by
  rw [Answers, inside, Bool.true_and, holds_userAssertions]
  constructor
  · rw [Assertion.holds, written.objectclass]
    rfl
  · refine ⟨user, ?_, ?_⟩
    · rw [written.names, safeStrdup, if_neg named]
      exact List.mem_singleton_self user
    · rw [fold_lowerit parsed.userShort]
      have same := wildcard_flatMap (fold user) ['*']
      have kept : (fold user).flatMap (fun char => if char = '*' then ['*'] else [char]) =
          fold user := by
        have each : ∀ char ∈ fold user, (if char = '*' then ['*'] else [char]) = [char] := by
          intro char _
          split
          · rename_i star
            rw [star]
          · rfl
        rw [List.flatMap_congr each, List.flatMap_singleton']
      rw [kept] at same
      exact same

end Search

/-! ## Setting a record -/

/-- The account in a directory: one entry has its name, and no other entry of
the domain has its uid. -/
structure Existing (site : Site) (within : Scope → (base dn : List Char) → Bool)
    (name domain : List Char) (before : List Entry) (own : Entry) (behind : List Entry) :
    Prop where
  named : within .base (userDn site name domain) own.dn = true
  placed : within .subtree (composeDn site domain) own.dn = true
  unnamed : ∀ entry ∈ before ++ behind, within .base (userDn site name domain) entry.dn = false
  alone : ∀ entry ∈ before ++ behind, within .subtree (composeDn site domain) entry.dn = true →
    (entry.values "uid".toList).head? ≠ some name

/-- The record that was set. -/
structure Returned (site : Site) (inpw : Vqpasswd) (record : UserRecord) : Prop where
  name : record.pwName = inpw.pwName
  passwd : record.pwPasswd = inpw.pwPasswd
  uid : record.pwUid = inpw.pwUid
  gid : record.pwGid = inpw.pwGid
  gecos : record.pwGecos = some inpw.pwGecos
  dir : record.pwDir = some inpw.pwDir
  shell : record.pwShell = inpw.pwShell
  clear : site.build.clearPass = true → record.pwClearPasswd = inpw.pwClearPasswd

/-- Every printed value stays inside its memory. -/
def Inside (formats : List Format) : Prop :=
  ∀ format ∈ formats, format.written ≤ format.allocated

/-- The record comes back, and printing it stays inside the allocations. -/
def SetpwRoundTrips (site : Site) (after : List Entry) (inpw : Vqpasswd) (domain : List Char) :
    Prop :=
  (∃ record, authGetpw site after inpw.pwName domain = some record ∧ Returned site inpw record) ∧
    Inside (setpwFormats site inpw domain)

/-- The reader needs three fields, the numbers fit their memory, and no entry in
front of the account's answers to its name. -/
structure Survives (site : Site) (within : Scope → (base dn : List Char) → Bool)
    (inpw : Vqpasswd) (domain : List Char) (before : List Entry) : Prop where
  passwd : inpw.pwPasswd ≠ []
  gecos : inpw.pwGecos ≠ []
  dir : inpw.pwDir ≠ []
  clear : site.build.clearPass = true → inpw.pwClearPasswd ≠ some []
  uid : (Decimal.spellInt inpw.pwUid.toInt).length < 10
  gid : (Decimal.spellInt inpw.pwGid.toInt).length < 10
  first : ∀ entry ∈ before, Answers site within inpw.pwName domain entry = false

theorem inside_formatsOf (site : Site) (name passwd uid gid domain : List Char) :
    Inside (formatsOf site name passwd uid gid domain) ↔ uid.length < 10 ∧ gid.length < 10 := by
  have passwdFits : (snprintf (passwd.length + 7 + 1) (scheme site ++ passwd)).length + 1 ≤
      passwd.length + 7 + 1 := by
    rw [snprintf, List.length_take]
    omega
  have dnFits : (userDn site name domain).length + 1 ≤
      4 + name.length + 2 + site.basedn.length + 4 + domain.length + 1 := by
    rw [userDn, snprintf, List.length_take]
    omega
  simp only [Inside, formatsOf, List.forall_mem_cons, List.not_mem_nil, false_implies,
    implies_true, and_true]
  constructor
  · intro fits
    exact ⟨fits.2.1, fits.2.2.1⟩
  · intro fits
    exact ⟨passwdFits, fits.1, fits.2, dnFits⟩

/-- A successful `auth_setpw` has accepted the record and replaced the entry. -/
theorem authSetpw_success {site : Site} {within : Scope → (base dn : List Char) → Bool}
    {domain : List Char} (serves : site.Serves within domain) {before behind after : List Entry}
    {own : Entry} {inpw : Vqpasswd}
    (existing : Existing site within inpw.pwName domain before own behind)
    (set : authSetpw site (before ++ own :: behind) inpw domain = (0, after)) :
    Vcdb.Admitted site.build inpw domain ∧ ∃ replaced, after = before ++ replaced :: behind ∧
      replaced.dn = own.dn ∧
      Written site inpw.pwName inpw.pwPasswd (Decimal.spellInt inpw.pwUid.toInt)
        (Decimal.spellInt inpw.pwGid.toInt) (safeStrdup inpw.pwGecos) (safeStrdup inpw.pwDir)
        (safeStrdup inpw.pwShell) (safeStrdup (inpw.pwClearPasswd.getD [])) replaced := by
  simp only [authSetpw] at set
  split at set
  · rename_i refused
    rw [Prod.mk.injEq] at set
    exact absurd ((Vcdb.VaCode.number_eq_zero_iff _).mp set.1) refused
  rename_i accepted
  rw [serves.connected, Bool.not_true, if_neg Bool.false_ne_true, Prod.mk.injEq,
    ite_eq_right_iff] at set
  rcases set with ⟨succeeded, rfl⟩
  refine ⟨(Vcdb.vcheckVqpw_eq_success_iff _ _ _).mp (not_not.mp accepted), ?_⟩
  let attributes := attributesOf site inpw.pwName inpw.pwPasswd
    (Decimal.spellInt inpw.pwUid.toInt) (Decimal.spellInt inpw.pwGid.toInt)
    (safeStrdup inpw.pwGecos) (safeStrdup inpw.pwDir) (safeStrdup inpw.pwShell)
    (safeStrdup (inpw.pwClearPasswd.getD []))
  have code : (site.server.modify (before ++ own :: behind) (userDn site inpw.pwName domain)
      attributes).1 = 0 := by
    by_contra failed
    exact absurd (succeeded failed) (by decide)
  have directory : (site.server.modify (before ++ own :: behind)
      (userDn site inpw.pwName domain) attributes).2 = _ :=
    serves.standard.modify (Prod.ext code rfl)
  have kept : ∀ entries : List Entry, (∀ entry ∈ entries, entry ∈ before ++ behind) →
      entries.map (fun entry => if within .base (userDn site inpw.pwName domain) entry.dn then
        entry.replaceAll attributes else entry) = entries := by
    intro entries others
    have same := List.map_congr_left (l := entries) (g := id)
      (f := fun entry => if within .base (userDn site inpw.pwName domain) entry.dn then
        entry.replaceAll attributes else entry) (by
      intro entry member
      rw [existing.unnamed entry (others entry member), if_neg Bool.false_ne_true]
      rfl)
    rw [same, List.map_id]
  refine ⟨own.replaceAll attributes, ?_, dn_replaceAll own attributes,
    written_attributesOf site own _ _ _ _ _ _ _ _⟩
  rw [directory, List.map_append, List.map_cons, if_pos existing.named,
    kept before fun _ member => List.mem_append_left _ member,
    kept behind fun _ member => List.mem_append_right _ member]

theorem parsed_admitted {site : Site} {inpw : Vqpasswd} {domain : List Char}
    (admitted : Vcdb.Admitted site.build inpw domain)
    (nameValid : isUsernameValid inpw.pwName = true) (domainValid : isDomainValid domain = true) :
    Parsed inpw.pwName domain where
  userValid := nameValid
  userShort := Nat.le_trans admitted.name (by decide)
  domainValid := domainValid
  domainShort := Nat.le_trans admitted.domain (by decide)

theorem recordOf_name {site : Site} {msg : Entry} {record : UserRecord}
    (read : recordOf site msg = some record) :
    (msg.values "uid".toList).head? = some record.pwName := by
  simp only [recordOf, Option.bind_eq_some_iff, Option.map_eq_some_iff] at read
  rcases read with ⟨stored, _, passwd, _, name, given, rfl⟩
  exact given

/-- The entries in front decide whether the written entry is read. -/
theorem find_written {directory : List Entry} {matching : Entry → Bool} {before behind : List Entry}
    {written : Entry} (split : directory = before ++ written :: behind)
    (matched : matching written = true) :
    ((∀ entry ∈ before, matching entry = false) ∧ directory.find? matching = some written) ∨
      ∃ entry ∈ before, matching entry = true ∧ directory.find? matching = some entry := by
  rw [split, List.find?_append]
  cases found : before.find? matching with
  | none =>
      left
      constructor
      · intro entry member
        have missed := List.find?_eq_none.mp found entry member
        simpa using missed
      · rw [Option.none_or, List.find?_cons_of_pos matched]
  | some entry =>
      right
      exact ⟨entry, List.mem_of_find?_eq_some found, List.find?_some found, rfl⟩

/-- An admitted record that was set for an existing user comes back exactly when
nothing in it is lost. -/
theorem setpw_roundTrips_iff {site : Site} {within : Scope → (base dn : List Char) → Bool}
    {domain : List Char} (serves : site.Serves within domain)
    (domainValid : isDomainValid domain = true) {before behind after : List Entry} {own : Entry}
    {inpw : Vqpasswd} (nameValid : isUsernameValid inpw.pwName = true) (named : inpw.pwName ≠ [])
    (existing : Existing site within inpw.pwName domain before own behind)
    (set : authSetpw site (before ++ own :: behind) inpw domain = (0, after)) :
    SetpwRoundTrips site after inpw domain ↔ Survives site within inpw domain before := by
  rcases authSetpw_success serves existing set with ⟨admitted, replaced, split, sameDn, written⟩
  have parsed := parsed_admitted admitted nameValid domainValid
  have placed : within .subtree (composeDn site domain) replaced.dn = true := by
    rw [sameDn]
    exact existing.placed
  have numbers : Inside (setpwFormats site inpw domain) ↔ _ := inside_formatsOf ..
  have looked := authGetpw_eq serves parsed after
  have clearGiven : site.build.clearPass = true → ∃ clear, inpw.pwClearPasswd = some clear := by
    intro clearPass
    cases given : inpw.pwClearPasswd with
    | some clear => exact ⟨clear, rfl⟩
    | none =>
        have refused := admitted.clearGiven clearPass
        rw [given] at refused
        cases refused
  rcases find_written split (written.answers parsed named placed) with
    ⟨first, found⟩ | ⟨entry, member, answers, found⟩
  · rw [found, Option.bind_some, recordOf_written written named] at looked
    constructor
    · intro trips
      rcases trips with ⟨⟨record, read, returned⟩, inside⟩
      rw [looked] at read
      split at read
      · cases read
      rename_i passwdGiven
      cases read
      have gecos := returned.gecos
      have dir := returned.dir
      have clear := returned.clear
      simp only [head_safeStrdup] at gecos dir clear
      refine ⟨passwdGiven, ?_, ?_, ?_, (numbers.mp inside).1, (numbers.mp inside).2, first⟩
      · intro blank
        rw [if_pos blank] at gecos
        cases gecos
      · intro blank
        rw [if_pos blank] at dir
        cases dir
      · intro clearPass blank
        have kept := clear clearPass
        rw [if_pos clearPass, blank] at kept
        cases kept
    · intro survives
      rw [if_neg survives.passwd] at looked
      refine ⟨⟨_, looked, ?_⟩, numbers.mpr ⟨survives.uid, survives.gid⟩⟩
      refine ⟨rfl, rfl, Decimal.ofInt_atoi_spellInt_toInt _, Decimal.ofInt_atoi_spellInt_toInt _,
        ?_, ?_, ?_, ?_⟩
      · exact (head_safeStrdup _).trans (if_neg survives.gecos)
      · exact (head_safeStrdup _).trans (if_neg survives.dir)
      · simp only [head_safeStrdup]
        split
        · rename_i blank
          exact blank.symm
        · rfl
      · intro clearPass
        rcases clearGiven clearPass with ⟨clear, given⟩
        have filledIn : clear ≠ [] := by
          intro blank
          exact survives.clear clearPass (by rw [given, blank])
        simp only [if_pos clearPass, given, Option.getD_some, head_safeStrdup, if_neg filledIn]
  · rw [found, Option.bind_some] at looked
    constructor
    · intro trips
      rcases trips with ⟨⟨record, read, returned⟩, _⟩
      rw [looked] at read
      have inside : within .subtree (composeDn site domain) entry.dn = true := by
        rw [Answers, Bool.and_eq_true] at answers
        exact answers.1
      have uid := recordOf_name read
      rw [returned.name] at uid
      exact absurd uid (existing.alone entry (List.mem_append_left _ member) inside)
    · intro survives
      rw [survives.first entry member] at answers
      cases answers

/-! ## Adding an account -/

/-- `auth_getpw` finds the account. -/
def Finds (site : Site) (directory : List Entry) (user domain : List Char) : Prop :=
  ∃ record, authGetpw site directory user domain = some record ∧ record.pwName = user

/-- A successful `auth_adduser` has put a written entry somewhere between the
old ones, with an empty password if it was given one. -/
theorem authAdduser_success {site : Site} {within : Scope → (base dn : List Char) → Bool}
    {domain : List Char} (serves : site.Serves within domain) (sound : site.encryption.Sound)
    {directory after : List Entry} {user password gecos dir : List Char} {usePop : Bool}
    (added : authAdduser site directory user domain password gecos dir usePop =
      .ok (0, after)) :
    ∃ domDir crypted before behind entry, directory = before ++ behind ∧
      after = before ++ entry :: behind ∧ entry.dn = userDn site user domain ∧
      (crypted = [] ↔ password = []) ∧
      Written site user crypted (if usePop then ['1'] else ['2']) ['0']
        (safeStrdup (if gecos = [] then user else gecos))
        (safeStrdup (newDir (snprintf 156 domDir) user dir)) ["NOQUOTA".toList] [password]
        entry := by
  rw [authAdduser, serves.connected, serves.real] at added
  split at added
  · cases added
  rename_i domDir assigned
  rw [Bool.not_true, if_neg Bool.false_ne_true] at added
  simp only at added
  cases made : stringAt (if password = [] then List.replicate 100 nul
      else mkpasswd3 site.encryption password (List.replicate 100 nul)) 0 with
  | error fault =>
      rw [made] at added
      cases added
  | ok crypted =>
      rw [made] at added
      simp only [Except.bind, Except.ok.injEq, Prod.mk.injEq] at added
      rcases added with ⟨succeeded, rfl⟩
      let entry := newEntry site (snprintf 156 domDir) crypted user domain password gecos dir usePop
      have code : (site.server.add directory entry).1 = 0 := by
        split at succeeded
        · assumption
        · split at succeeded
          · exact absurd succeeded (by decide)
          · exact absurd succeeded (by decide)
      have placed := serves.standard.add (Prod.ext code rfl :
        site.server.add directory entry = (0, (site.server.add directory entry).2))
      rcases placed with ⟨before, behind, split, whole⟩
      refine ⟨domDir, crypted, before, behind, entry, split, whole, dn_replaceAll _ _, ?_,
        written_attributesOf site _ _ _ _ _ _ _ _ _⟩
      constructor
      · intro blank
        by_contra given
        rw [if_neg given] at made
        rcases sound.head_mkpasswd3 (by decide) made with ⟨head, tail, spelled, _⟩
        rw [blank] at spelled
        cases spelled
      · intro blank
        rw [if_pos blank] at made
        have text : stringAt (List.replicate 100 nul) 0 = .ok [] := by decide
        exact (Except.ok.inj (text.symm.trans made)).symm

/-- A new account is found exactly when it has a password and no entry in front
of it answers to its name. What is printed always fits. -/
theorem adduser_finds_iff {site : Site} {within : Scope → (base dn : List Char) → Bool}
    {user domain : List Char} (serves : site.Serves within domain)
    (sound : site.encryption.Sound) (parsed : Parsed user domain) (named : user ≠ [])
    {directory after : List Entry} {password gecos dir : List Char} {usePop : Bool}
    (placed : within .subtree (composeDn site domain) (userDn site user domain) = true)
    (fresh : ∀ entry ∈ directory, within .subtree (composeDn site domain) entry.dn = true →
      (entry.values "uid".toList).head? ≠ some user)
    (added : authAdduser site directory user domain password gecos dir usePop =
      .ok (0, after)) :
    ∃ before entry behind, directory = before ++ behind ∧ after = before ++ entry :: behind ∧
      (Finds site after user domain ↔
        password ≠ [] ∧ ∀ entry ∈ before, Answers site within user domain entry = false) := by
  rcases authAdduser_success serves sound added with
    ⟨domDir, crypted, before, behind, entry, split, whole, dn, crypts, written⟩
  refine ⟨before, entry, behind, split, whole, ?_⟩
  have inside : within .subtree (composeDn site domain) entry.dn = true := by
    rw [dn]
    exact placed
  have looked := authGetpw_eq serves parsed after
  rcases find_written whole (written.answers parsed named inside) with
    ⟨first, found⟩ | ⟨other, member, answers, found⟩
  · rw [found, Option.bind_some, recordOf_written written named] at looked
    constructor
    · intro finds
      rcases finds with ⟨record, read, _⟩
      rw [looked] at read
      split at read
      · cases read
      · rename_i given
        exact ⟨fun blank => given (crypts.mpr blank), first⟩
    · intro holds
      have given : crypted ≠ [] := fun blank => holds.1 (crypts.mp blank)
      rw [if_neg given] at looked
      exact ⟨_, looked, rfl⟩
  · rw [found, Option.bind_some] at looked
    constructor
    · intro finds
      rcases finds with ⟨record, read, name⟩
      rw [looked] at read
      have uid := recordOf_name read
      rw [name] at uid
      have below : within .subtree (composeDn site domain) other.dn = true := by
        rw [Answers, Bool.and_eq_true] at answers
        exact answers.1
      exact absurd uid (fresh other (split ▸ List.mem_append_left _ member) below)
    · intro holds
      rw [holds.2 other member] at answers
      cases answers

theorem inside_adduserFormats (site : Site) (domDir crypted user domain dir : List Char)
    (usePop : Bool) : Inside (adduserFormats site domDir crypted user domain dir usePop) := by
  have values : Inside (formatsOf site user crypted (if usePop then ['1'] else ['2']) ['0']
      domain) := by
    rw [inside_formatsOf]
    cases usePop <;> decide
  intro format member
  rcases List.mem_cons.mp member with rfl | later
  · show (newDir domDir user dir).length + 1 ≤ domDir.length + 5 + dir.length + user.length
    rw [newDir]
    split
    · rw [List.length_append, List.length_cons]
      omega
    · rw [List.length_append, List.length_cons, List.length_append, List.length_cons]
      omega
  · exact values format later

/-! ## Both writers -/

/-- Records that are set and accounts that are added come back under exact
conditions. -/
theorem accounts_roundTrip {site : Site} {within : Scope → (base dn : List Char) → Bool}
    {domain : List Char} (serves : site.Serves within domain) (sound : site.encryption.Sound)
    (domainValid : isDomainValid domain = true) (domainShort : domain.length ≤ maxPwDomain) :
    (∀ before own behind inpw after, isUsernameValid inpw.pwName = true → inpw.pwName ≠ [] →
      Existing site within inpw.pwName domain before own behind →
        authSetpw site (before ++ own :: behind) inpw domain = (0, after) →
          (SetpwRoundTrips site after inpw domain ↔ Survives site within inpw domain before)) ∧
      (∀ directory user password gecos dir usePop after, isUsernameValid user = true →
        user ≠ [] → user.length ≤ maxPwName →
          within .subtree (composeDn site domain) (userDn site user domain) = true →
            (∀ entry ∈ directory, within .subtree (composeDn site domain) entry.dn = true →
              (entry.values "uid".toList).head? ≠ some user) →
                authAdduser site directory user domain password gecos dir usePop =
                  .ok (0, after) →
                    ∃ before entry behind, directory = before ++ behind ∧
                      after = before ++ entry :: behind ∧
                        (Finds site after user domain ↔ password ≠ [] ∧
                          ∀ other ∈ before, Answers site within user domain other = false)) ∧
      ∀ domDir crypted user dir usePop,
        Inside (adduserFormats site domDir crypted user domain dir usePop) := by
  refine ⟨?_, ?_, ?_⟩
  · intro before own behind inpw after nameValid named existing set
    exact setpw_roundTrips_iff serves domainValid nameValid named existing set
  · intro directory user password gecos dir usePop after userValid named short placed fresh added
    have parsed : Parsed user domain :=
      ⟨userValid, Nat.le_trans short (by decide), domainValid, Nat.le_trans domainShort (by decide)⟩
    exact adduser_finds_iff serves sound parsed named placed fresh added
  · intro domDir crypted user dir usePop
    exact inside_adduserFormats site domDir crypted user domain dir usePop

/-! ## Accounts of one domain -/

theorem serves_exampleSite : exampleSite.Serves textScopes "example.com".toList where
  standard := Server.standard_ofScopes textScopes
  answers := Server.answers_ofScopes textScopes
  owns := rfl
  connected := rfl
  real := by decide

def bobRecord (passwd gecos : List Char) (uid : BitVec 32) : Vqpasswd where
  pwName := "bob".toList
  pwPasswd := passwd
  pwUid := uid
  pwGid := 0
  pwFlags := 0
  pwGecos := gecos
  pwDir := "/domains/example.com/bob".toList
  pwShell := "NOQUOTA".toList
  pwClearPasswd := some "secret".toList

def bobEntry : Entry := otherUser "uid=bob, ou=example.com,o=vpopmail".toList "bob".toList

theorem existing_bobEntry :
    Existing exampleSite textScopes "bob".toList "example.com".toList [] bobEntry [] where
  named := by decide +kernel
  placed := by decide +kernel
  unnamed := fun _ member => absurd member List.not_mem_nil
  alone := fun _ member => absurd member List.not_mem_nil

/-- The directory after `bob` was set, or added with a password. -/
def setBob (inpw : Vqpasswd) : List Entry :=
  (authSetpw exampleSite [bobEntry] inpw "example.com".toList).2

def addBob (password : List Char) : List Entry :=
  (exampleSite.server.add [] (newEntry exampleSite "/domains/example.com".toList
    (if password = [] then [] else "aaJnggxhB/yWI".toList) "bob".toList "example.com".toList
      password [] [] true)).2

theorem accounts_roundTrip_bob :
    (SetpwRoundTrips exampleSite (setBob (bobRecord "x".toList "Bob".toList 1))
        (bobRecord "x".toList "Bob".toList 1) "example.com".toList ↔
      Survives exampleSite textScopes (bobRecord "x".toList "Bob".toList 1)
        "example.com".toList []) ∧
      ∃ before entry behind, ([] : List Entry) = before ++ behind ∧
        addBob "secret".toList = before ++ entry :: behind ∧
          (Finds exampleSite (addBob "secret".toList) "bob".toList "example.com".toList ↔
            "secret".toList ≠ [] ∧ ∀ other ∈ before,
              Answers exampleSite textScopes "bob".toList "example.com".toList other = false) := by
  have all := accounts_roundTrip serves_exampleSite sound_exampleEncryption
    (show isDomainValid "example.com".toList = true by decide) (by decide)
  have code : (authSetpw exampleSite [bobEntry] (bobRecord "x".toList "Bob".toList 1)
      "example.com".toList).1 = 0 := by decide +kernel
  constructor
  · exact all.1 [] bobEntry [] _ _ (by decide) (by decide) existing_bobEntry (Prod.ext code rfl)
  · exact all.2.1 [] "bob".toList "secret".toList [] [] true _ (by decide) (by decide) (by decide)
      (by decide +kernel) (fun _ member => absurd member List.not_mem_nil) rfl

/-- An account with an empty password is not found, an empty comment comes back
as a null pointer, and a uid of ten digits is printed past its memory. -/
theorem accounts_not_roundTrip :
    (authAdduser exampleSite [] "bob".toList "example.com".toList [] [] [] true).map Prod.fst =
        .ok 0 ∧
      authGetpw exampleSite (addBob []) "bob".toList "example.com".toList = none ∧
      (authSetpw exampleSite [bobEntry] (bobRecord "x".toList [] 1) "example.com".toList).1 = 0 ∧
      (authGetpw exampleSite (setBob (bobRecord "x".toList [] 1)) "bob".toList
        "example.com".toList).map UserRecord.pwGecos = some none ∧
      (authSetpw exampleSite [bobEntry] (bobRecord "x".toList "Bob".toList 2000000000)
        "example.com".toList).1 = 0 ∧
      ⟨10, 11⟩ ∈ setpwFormats exampleSite (bobRecord "x".toList "Bob".toList 2000000000)
        "example.com".toList := by
  decide +kernel

end Vpopmail.Vldap

import Vpopmail.Vopenldap.Passwd

/-! # Changing a password in the openldap store

`mkpasswd3` makes a `crypt` text without a scheme in front of it, and
`auth_crypt` knows no scheme but `{SMD5}`. A changed password is never accepted
again.
-/

namespace Vpopmail.Vopenldap

open Vpopmail Text Buffer Directory

/-- `auth_getpw` finds the account, and `auth_crypt` accepts the password. -/
def Accepts (site : Site) (digests : Digests) (store : Store)
    (username domain password : List Char) : Prop :=
  ∃ vpw after, authGetpw site store username domain = .ok (some vpw, after) ∧
    authCrypt digests password vpw = 0

/-- A process that starts later. -/
def Store.fresh (store : Store) : Store := { store with foreign := false }

/-! ## The functions -/

theorem authCrypt_unknown {digests : Digests} {vpw : UserResult} {head : Char}
    {tail : List Char} (stored : vpw.pwPasswd = some (head :: tail)) (notBrace : head ≠ '{')
    (clearPass : List Char) : authCrypt digests clearPass vpw = -1 := by
  have scheme : fold ((head :: tail).take 6) ≠ fold "{SMD5}".toList := by
    intro same
    have first : head.toLower = '{' := (List.cons.inj same).1
    exact notBrace (eq_of_toLower first (by decide))
  rw [authCrypt, stored]
  exact if_neg scheme

/-- A record that is found is that of an entry with the name. -/
theorem authGetpw_found {site : Site} {within : Scope → (base dn : List Char) → Bool}
    (standard : site.server.Standard within) {store after : Store} {user domain : List Char}
    {vpw : UserResult} (found : authGetpw site store user domain = .ok (some vpw, after)) :
    store.foreign = false ∧ after = store ∧
      ∃ dn, createDn site (some user) (if domain = [] then site.defaultDomain else domain) =
        .ok (some dn) ∧
      ∃ msg ∈ store.directory, within .base dn msg.dn = true ∧ vpw = useUserResult msg := by
  rw [authGetpw] at found
  split at found
  · cases found
  rename_i native
  cases made : createDn site (some user) (if domain = [] then site.defaultDomain else domain) with
  | error fault =>
      rw [made] at found
      cases found
  | ok dn =>
      rw [made] at found
      cases dn with
      | none => cases found
      | some dn =>
          simp only [Except.bind] at found
          split at found
          · rename_i msg others searched
            cases found
            have read : readFilter "(objectClass=vpopmail)".toList =
                some [⟨"objectClass".toList, "vpopmail".toList⟩] := by decide
            have entries := standard.search read searched
            have member : msg ∈ msg :: others := List.mem_cons_self
            rw [entries, List.mem_filter, Bool.and_eq_true] at member
            exact ⟨by simpa using native, rfl, dn, rfl, msg, member.1, member.2.1, rfl⟩
          · cases found

/-- What a successful `auth_setpw` replaces. -/
theorem modifications_success {inpw : UserResult} {attrs : List Replacement}
    (made : modifications inpw = .ok attrs) :
    ∃ dir shell passwd, inpw.pwDir = some dir ∧ inpw.pwShell = some shell ∧
      inpw.pwPasswd = some passwd ∧
      attrs = [("pw-uid".toList, [Decimal.spellInt inpw.pwUid.toInt]),
        ("pw-gid".toList, [Decimal.spellInt inpw.pwGid.toInt]), ("pw-dir".toList, [dir]),
        ("pw-shell".toList, [shell]), ("userPassword".toList, [passwd])] ++
          parseGecos inpw.pwGecos := by
  rw [modifications] at made
  simp only [modAdd, Except.bind] at made
  cases dirGiven : inpw.pwDir with
  | none => simp [dirGiven] at made
  | some dir =>
      cases shellGiven : inpw.pwShell with
      | none => simp [dirGiven, shellGiven] at made
      | some shell =>
          cases passwdGiven : inpw.pwPasswd with
          | none => simp [dirGiven, shellGiven, passwdGiven] at made
          | some passwd =>
              simp only [dirGiven, shellGiven, passwdGiven, Except.ok.injEq] at made
              exact ⟨dir, shell, passwd, rfl, rfl, rfl, made.symm⟩

/-- The password of the entry that a successful `auth_setpw` names. -/
theorem authSetpw_success {site : Site} {within : Scope → (base dn : List Char) → Bool}
    (standard : site.server.Standard within) {store after : Store} {inpw : UserResult}
    {name passwd domain dn : List Char} (named : inpw.pwName = some name)
    (given : inpw.pwPasswd = some passwd)
    (made : createDn site (some name) domain = .ok (some dn))
    (set : authSetpw site store inpw domain = .ok (0, after)) :
    after.foreign = store.foreign ∧
      ∀ msg ∈ after.directory, within .base dn msg.dn = true →
        msg.values "userPassword".toList = [passwd] := by
  rw [authSetpw, named] at set
  simp only [made, Except.bind] at set
  cases attrsMade : modifications inpw with
  | error fault => simp [attrsMade] at set
  | ok attrs =>
      rcases modifications_success attrsMade with
        ⟨dir, shell, stored, _, _, same, spelled⟩
      cases given.symm.trans same
      simp only [attrsMade, Except.ok.injEq, Prod.mk.injEq, ite_eq_right_iff] at set
      rcases set with ⟨accepted, rfl⟩
      have code : (site.server.modify store.directory dn attrs).1 = 0 := by
        by_contra failed
        exact absurd (accepted failed) (by decide)
      have directory : (site.server.modify store.directory dn attrs).2 = _ :=
        standard.modify (Prod.ext code rfl)
      refine ⟨rfl, ?_⟩
      intro msg member inside
      have changed : msg ∈ (site.server.modify store.directory dn attrs).2 := member
      rw [directory] at changed
      rcases List.mem_map.mp changed with ⟨entry, _, rfl⟩
      by_cases named : within .base dn entry.dn = true
      · rw [if_pos named]
        have apart : (attrs.map fun replacement => fold replacement.1).Nodup := by
          rw [spelled]
          simp only [parseGecos, List.map_append, List.map_cons, List.map_nil]
          decide
        have replaced : ("userPassword".toList, [passwd]) ∈ attrs := by
          rw [spelled]
          simp
        exact values_replaceAll apart replaced
      · rw [if_neg named] at inside
        exact absurd inside named

/-! ## Changed passwords -/

/-- The entry of the account has its name, as `auth_adduser` gives it to it. -/
def Named (site : Site) (within : Scope → (base dn : List Char) → Bool) (store : Store)
    (user domain : List Char) : Prop :=
  ∀ entry ∈ store.directory, ∀ dn, createDn site (some user) domain = .ok (some dn) →
    within .base dn entry.dn = true → entry.values "uid".toList = [user]

/-- A password that was changed is not accepted: the process that changed it
stops at the pointer that is left in `g_pw`, and a later one finds a password
whose scheme is unknown. -/
theorem vpasswd_not_accepts {site : Site} {within : Scope → (base dn : List Char) → Bool}
    (standard : site.server.Standard within) {change : PasswordChange}
    (sound : change.encryption.Sound) {store after : Store}
    {username domain password : List Char} (domainGiven : domain ≠ [])
    (named : Named site within store (lowerit username) (lowerit domain))
    (changed : vpasswd (passwordStore site) change store username domain password =
      .ok (0, after)) (digests : Digests) :
    ¬Accepts site digests after (lowerit username) (lowerit domain) password ∧
      ¬Accepts site digests after.fresh (lowerit username) (lowerit domain) password := by
  rcases vpasswd_success changed with ⟨mypw, looked, passwd, success⟩
  have blank : lowerit domain ≠ [] := by
    cases domain with
    | nil => exact absurd rfl domainGiven
    | cons head tail => exact List.cons_ne_nil _ _
  rcases authGetpw_found standard success.found with
    ⟨_, sameStore, dn, made, msg, member, inside, rfl⟩
  subst looked
  rw [if_neg blank] at made
  have userName : (useUserResult msg).pwName = some (lowerit username) := by
    show (msg.values "uid".toList).head? = _
    rw [named msg member dn made inside]
    rfl
  have set : authSetpw site { store with foreign := true }
      { useUserResult msg with
        pwPasswd := some passwd
        pwClearPasswd := change.clear password <|> (useUserResult msg).pwClearPasswd }
      (lowerit domain) = .ok (0, after) := success.set
  rcases authSetpw_success standard (by exact userName) (by rfl) made set with ⟨foreign, stored⟩
  constructor
  · intro accepts
    rcases accepts with ⟨vpw, _, found, _⟩
    exact absurd ((authGetpw_found standard found).1.symm.trans foreign) Bool.false_ne_true
  · intro accepts
    rcases accepts with ⟨vpw, _, found, accepted⟩
    rcases authGetpw_found standard found with
      ⟨_, rfl, dn', made', msg', member', inside', rfl⟩
    rw [if_neg blank] at made'
    cases made.symm.trans made'
    have room : 0 < change.crypted.val.length := by
      rw [change.crypted.property]
      decide
    rcases sound.head_mkpasswd3 room success.crypted with ⟨head, tail, rfl, notBrace⟩
    have password' : (useUserResult msg').pwPasswd = some (head :: tail) := by
      show (msg'.values "userPassword".toList).head? = _
      rw [stored msg' member' inside']
      rfl
    rw [authCrypt_unknown password' notBrace] at accepted
    cases accepted

/-! ## A change that locks an account -/

def exampleSite : Site where
  server := Server.ofScopes textScopes
  basedn := "ou=vpopmail".toList
  defaultDomain := "example.com".toList

/-- The entry of `bob`, with or without a changed password. -/
def bobEntry (passwd : List Char) : Entry where
  dn := "uid=bob,o=example.com,ou=vpopmail".toList
  attributes := fun kind =>
    if kind = "objectclass".toList then ["vpopmail".toList]
    else if kind = "uid".toList then ["bob".toList]
    else if kind = "userpassword".toList then [passwd]
    else if kind = "pw-uid".toList then ["0".toList]
    else if kind = "pw-gid".toList then ["0".toList]
    else if kind = "pw-dir".toList then ["/domains/example.com/bob".toList]
    else if kind = "pw-shell".toList then ["NOQUOTA".toList]
    else []

def bobStore (passwd : List Char) : Store where
  directory := [bobEntry passwd]
  foreign := false

def exampleChange : PasswordChange where
  build := ⟨false, false⟩
  encryption := exampleEncryption
  rules := ⟨fun _ => true, fun _ _ => true, fun _ _ => true, fun _ _ => true, fun _ _ => true⟩
  crypted := ⟨List.replicate maxBuff nul, List.length_replicate⟩

theorem exists_after {result : Checked (Int × Store)} {ret : Int}
    (code : result.map Prod.fst = .ok ret) : ∃ after, result = .ok (ret, after) := by
  cases result with
  | error fault => cases code
  | ok answer =>
      cases code
      exact ⟨answer.2, rfl⟩

theorem named_bobStore (passwd : List Char) :
    Named exampleSite textScopes (bobStore passwd) (lowerit "bob".toList)
      (lowerit "example.com".toList) := by
  intro entry member dn _ _
  have same : lowerit "bob".toList = "bob".toList := by decide
  rw [List.mem_singleton.mp member, same]
  rfl

theorem vpasswd_not_accepts_bob :
    ∃ after, ∀ digests,
      ¬Accepts exampleSite digests after (lowerit "bob".toList) (lowerit "example.com".toList)
          "new".toList ∧
        ¬Accepts exampleSite digests after.fresh (lowerit "bob".toList)
          (lowerit "example.com".toList) "new".toList := by
  have code : (vpasswd (passwordStore exampleSite) exampleChange (bobStore "{SMD5}x".toList)
      "bob".toList "example.com".toList "new".toList).map Prod.fst = .ok 0 := by decide +kernel
  rcases exists_after code with ⟨after, changed⟩
  have blank : "example.com".toList ≠ [] := by decide
  exact ⟨after, fun digests => vpasswd_not_accepts (Server.standard_ofScopes textScopes)
    sound_exampleEncryption blank (named_bobStore "{SMD5}x".toList) changed digests⟩

/-- The new password of `bob` is stored without a scheme, and is not accepted. -/
theorem vpasswd_locks_bob :
    ∃ after, vpasswd (passwordStore exampleSite) exampleChange (bobStore "{SMD5}x".toList)
        "bob".toList "example.com".toList "new".toList = .ok (0, after) ∧
      authGetpw exampleSite after "bob".toList "example.com".toList = .error .outOfBounds ∧
      ∃ vpw, authGetpw exampleSite after.fresh "bob".toList "example.com".toList =
          .ok (some vpw, after.fresh) ∧
        vpw.pwPasswd = some "aaJnggxhB/yWI".toList ∧
        ∀ digests, authCrypt digests "new".toList vpw = -1 := by
  have code : (vpasswd (passwordStore exampleSite) exampleChange (bobStore "{SMD5}x".toList)
      "bob".toList "example.com".toList "new".toList).map Prod.fst = .ok 0 := by decide +kernel
  rcases exists_after code with ⟨after, changed⟩
  have observed : ((vpasswd (passwordStore exampleSite) exampleChange
      (bobStore "{SMD5}x".toList) "bob".toList "example.com".toList "new".toList).map fun answer =>
        (answer.2.foreign, (authGetpw exampleSite answer.2.fresh "bob".toList
          "example.com".toList).map fun found => found.1.map UserResult.pwPasswd)) =
      .ok (true, .ok (some (some "aaJnggxhB/yWI".toList))) := by decide +kernel
  rw [changed] at observed
  have parts := Prod.mk.inj (Except.ok.inj observed)
  refine ⟨after, changed, by rw [authGetpw, if_pos parts.1], ?_⟩
  cases found : authGetpw exampleSite after.fresh "bob".toList "example.com".toList with
  | error fault =>
      have second := parts.2
      rw [found] at second
      cases second
  | ok answer =>
      rcases answer with ⟨vpw, same⟩
      have second := parts.2
      rw [found] at second
      cases vpw with
      | none => cases second
      | some vpw =>
          have stored : vpw.pwPasswd = some "aaJnggxhB/yWI".toList :=
            Option.some.inj (Except.ok.inj second)
          cases (authGetpw_found (Server.standard_ofScopes textScopes) found).2.1
          exact ⟨vpw, rfl, stored, fun digests =>
            authCrypt_unknown stored (by decide) "new".toList⟩

end Vpopmail.Vopenldap

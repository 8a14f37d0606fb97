import Vpopmail.Vcdb.RoundTrip
import Vpopmail.Vpopmaild.ModUser

/-! # Privileges under `mod_user`

No parameter of a caller without `SA_ADMIN` touches the uid, the directory or
one of the privilege bits of a record, with the exception of `clear_all_flags`
under `V_OVERRIDE`. Unless a delimiter reaches the printed line, that is also
what `auth_getpw` finds afterwards.
-/

namespace Vpopmail.Vpopmaild

open Vpopmail Text Vpopmail.Stream Buffer Vcdb

/-- The bits that only a system administrator may hand out. -/
def privileges : BitVec 32 := saAdmin ||| saExpert ||| vOverride

/-- The parameter takes all flags away. -/
def Clears (session : Session) (parameter : List Char × List Char) : Prop :=
  canOverride session = true ∧ parameter.1 = "clear_all_flags".toList

instance (session : Session) (parameter : List Char × List Char) :
    Decidable (Clears session parameter) :=
  inferInstanceAs (Decidable (canOverride session = true ∧ _ = "clear_all_flags".toList))

/-! ## Flags -/

theorem setFlag_and {flag mask : BitVec 32} (apart : flag &&& mask = 0)
    (value : List Char) (gid : BitVec 32) : setFlag flag value gid &&& mask = gid &&& mask := by
  have bits : ∀ i, (flag.getLsbD i && mask.getLsbD i) = false := by
    intro i
    rw [← BitVec.getLsbD_and, apart]
    exact BitVec.getLsbD_zero
  have set : ∀ one two other : Bool, (one && two) = false →
      ((other || one) && two) = (other && two) := by decide
  have cleared : ∀ one two other : Bool, (one && two) = false →
      ((other && !one) && two) = (other && two) := by decide
  rw [setFlag]
  split
  · apply BitVec.eq_of_getLsbD_eq
    intro i _
    rw [BitVec.getLsbD_and, BitVec.getLsbD_or, BitVec.getLsbD_and]
    exact set _ _ _ (bits i)
  · split
    · apply BitVec.eq_of_getLsbD_eq
      intro i inside
      rw [BitVec.getLsbD_and, BitVec.getLsbD_and, BitVec.getLsbD_not, BitVec.getLsbD_and,
        decide_eq_true inside, Bool.true_and]
      exact cleared _ _ _ (bits i)
    · rfl

/-- The flags in reach of a caller without `SA_ADMIN` are no privileges. -/
theorem flag_apart {session : Session} (notAdmin : ¬Has session.authVpw.pwGid saAdmin) :
    ∀ parameter ∈ flagParameters, parameter.guard.allows session = true →
      parameter.flag &&& privileges = 0 := by
  have table : ∀ parameter ∈ flagParameters,
      parameter.guard = .systemAdmin ∨ parameter.flag &&& privileges = 0 := by decide
  intro parameter member allowed
  rcases table parameter member with guarded | apart
  · rw [guarded] at allowed
    exact absurd (of_decide_eq_true allowed) notAdmin
  · exact apart

/-- What a parameter does to the privileges. -/
theorem applyParameter_privileges {session : Session}
    (notAdmin : ¬Has session.authVpw.pwGid saAdmin) (daemon : Daemon) (state : Modification)
    (param value : List Char) :
    Ensures (applyParameter daemon session state param value) fun after =>
      after.tmpvpw.pwGid &&& privileges =
        if Clears session (param, value) then 0 else state.tmpvpw.pwGid &&& privileges := by
  have other : ∀ name : List Char, name ≠ "clear_all_flags".toList → param = name →
      ¬Clears session (param, value) := by
    intro name different same clears
    exact different (same.symm.trans clears.2)
  rw [applyParameter]
  split
  · rename_i comment
    exact ensures_ok (if_neg (other _ (by decide) comment)).symm
  split
  · rename_i quota
    apply ensures_bind (ensures_any _)
    intro shell _
    exact ensures_ok (if_neg (other _ (by decide) quota.2)).symm
  split
  · rename_i encrypted
    exact ensures_ok (if_neg (other _ (by decide) encrypted)).symm
  split
  · rename_i clearText
    apply ensures_bind (ensures_any _)
    intro passwd _
    exact ensures_ok (if_neg (other _ (by decide) clearText.1)).symm
  split
  · rename_i clears
    have all : Clears session (param, value) := clears
    apply ensures_ok
    rw [if_pos all]
    exact BitVec.zero_and
  · rename_i kept
    have none : ¬Clears session (param, value) := kept
    rw [if_neg none]
    split
    · exact ensures_ok rfl
    · rename_i parameter found
      have member := List.mem_of_find?_eq_some found
      have holds := List.find?_some found
      rw [Bool.and_eq_true] at holds
      exact ensures_ok (setFlag_and (flag_apart notAdmin parameter member holds.1) _ _)

theorem applyParameters_privileges {session : Session}
    (notAdmin : ¬Has session.authVpw.pwGid saAdmin) (daemon : Daemon)
    (parameters : List (List Char × List Char)) (state : Modification) :
    Ensures (applyParameters daemon session parameters state) fun after =>
      after.tmpvpw.pwGid &&& privileges =
        if ∃ parameter ∈ parameters, Clears session parameter then 0
        else state.tmpvpw.pwGid &&& privileges := by
  induction parameters generalizing state with
  | nil => exact ensures_ok (by simp)
  | cons parameter parameters induction =>
      rcases parameter with ⟨param, value⟩
      rw [applyParameters]
      apply ensures_bind (applyParameter_privileges notAdmin daemon state param value)
      intro next step
      constructor
      intro after run
      rw [(induction next).holds after run, step]
      by_cases first : Clears session (param, value)
      · have some : ∃ parameter ∈ (param, value) :: parameters, Clears session parameter :=
          ⟨_, List.mem_cons_self, first⟩
        rw [if_pos first, if_pos some, ite_self]
      · have same : (∃ parameter ∈ (param, value) :: parameters, Clears session parameter) ↔
            ∃ parameter ∈ parameters, Clears session parameter := by
          simp [first]
        rw [if_neg first]
        exact if_congr same.symm rfl rfl

/-! ## Texts -/

/-- Text that stays on the line that it is printed into. -/
def Unbroken (text : List Char) : Prop := Free '\n' text ∧ Free nul text

theorem Unbroken.of_plain {text : List Char} (plain : Vcdb.Plain text) : Unbroken text := plain.2

/-- The value of a parameter stays on its line. -/
theorem unbroken_of_parameterOf {chunk : List Char} {parameter : List Char × List Char}
    (read : parameterOf chunk = some parameter) : Unbroken parameter.2 := by
  rw [parameterOf] at read
  split at read
  · cases read
  · rename_i param rest first
    split at read
    · cases read
    · rename_i value behind second
      cases read
      constructor
      · intro member
        exact absurd (mem_of_mem_strtok second '\n' member).2 (by decide)
      · intro member
        have inside := mem_of_mem_strtok_rest first _ (mem_of_mem_strtok second _ member).1
        exact free_takeWhile_ne nul chunk inside

theorem unbroken_parametersOf (stdin : List Char) :
    ∀ parameter ∈ parametersOf stdin, Unbroken parameter.2 := by
  intro parameter member
  rcases List.mem_filterMap.mp member with ⟨chunk, _, read⟩
  exact unbroken_of_parameterOf read

/-- What the library functions promise: `crypt` succeeds with the salts of
`mkpasswd3`, and neither its results nor printed numbers hold a delimiter. -/
structure Daemon.Sound (daemon : Daemon) : Prop where
  crypt : ∀ pass, ∃ text, daemon.crypt pass = some text ∧ Vcdb.Plain text
  print : ∀ value, Vcdb.Plain (daemon.doubles.print value)

theorem ensures_unbroken_mkpasswd3 {daemon : Daemon} (sound : daemon.Sound)
    (pass cells : List Char) :
    Ensures (stringAt (mkpasswd3 daemon.crypt pass cells) 0) Unbroken := by
  constructor
  intro passwd read
  rcases sound.crypt pass with ⟨text, crypted, plain⟩
  have filled : mkpasswd3 daemon.crypt pass cells = strncpyCells cells.length text := by
    rw [mkpasswd3, crypted]
  rw [filled, stringAt] at read
  split at read
  · cases read
    constructor
    · intro member
      have copied := List.mem_of_mem_take ((List.takeWhile_sublist _).subset member)
      rcases List.mem_append.mp copied with inside | padding
      · exact plain.2.1 inside
      · exact absurd (List.eq_of_mem_replicate padding) (by decide)
    · exact free_takeWhile_ne nul _
  · cases read

/-- What every parameter leaves of a record, and of the texts in it. -/
structure Carried (before pw : Vqpasswd) : Prop where
  name : pw.pwName = before.pwName
  uid : pw.pwUid = before.pwUid
  dir : pw.pwDir = before.pwDir
  passwd : Unbroken pw.pwPasswd
  gecos : Unbroken pw.pwGecos
  shell : Vcdb.Plain pw.pwShell
  clear : ∀ text ∈ pw.pwClearPasswd, Unbroken text

theorem applyParameter_carried {daemon : Daemon} (sound : daemon.Sound) (session : Session)
    {before : Vqpasswd} {state : Modification} (carried : Carried before state.tmpvpw)
    (param : List Char) {value : List Char} (unbroken : Unbroken value) :
    Ensures (applyParameter daemon session state param value) fun after =>
      Carried before after.tmpvpw := by
  rw [applyParameter]
  split
  · exact ensures_ok { carried with gecos := unbroken }
  split
  · apply ensures_bind (ensures_plain_formatMaildirquota sound.print value)
    intro quota plain
    exact ensures_ok { carried with shell := plain }
  split
  · exact ensures_ok { carried with passwd := unbroken }
  split
  · apply ensures_bind (ensures_unbroken_mkpasswd3 sound value state.crypted)
    intro passwd crypted
    apply ensures_ok
    refine { carried with passwd := crypted, clear := ?_ }
    intro text given
    cases given
    exact unbroken
  split
  · exact ensures_ok { carried with }
  · split
    · exact ensures_ok carried
    · exact ensures_ok { carried with }

theorem applyParameters_carried {daemon : Daemon} (sound : daemon.Sound) (session : Session)
    {before : Vqpasswd} {parameters : List (List Char × List Char)}
    (unbroken : ∀ parameter ∈ parameters, Unbroken parameter.2) {state : Modification}
    (carried : Carried before state.tmpvpw) :
    Ensures (applyParameters daemon session parameters state) fun after =>
      Carried before after.tmpvpw := by
  induction parameters generalizing state with
  | nil => exact ensures_ok carried
  | cons parameter parameters induction =>
      rcases List.forall_mem_cons.mp unbroken with ⟨first, others⟩
      rw [applyParameters]
      apply ensures_bind (applyParameter_carried sound session carried parameter.1 first)
      intro next kept
      exact induction others kept

/-! ## The record that is found afterwards -/

/-- What a successful `mod_user` of a caller without `SA_ADMIN` keeps of the
record of the account. -/
structure KeepsPrivileges (session : Session) (parameters : List (List Char × List Char))
    (before after : Vqpasswd) : Prop where
  uid : after.pwUid = before.pwUid
  dir : after.pwDir = before.pwDir
  bits : after.pwGid &&& privileges =
    if ∃ parameter ∈ parameters, Clears session parameter then 0
    else before.pwGid &&& privileges

theorem carried_found (entry : Entry) (site : Site) :
    Carried (entry.found site) (entry.found site) where
  name := rfl
  uid := rfl
  dir := rfl
  passwd := .of_plain entry.passwd_plain
  gecos := .of_plain entry.gecos_plain
  shell := entry.shell_plain
  clear := by
    intro text given
    cases stored : entry.clear with
    | none =>
        have blank : text = [] := by
          simpa [Entry.found, vlimitsSetflags, Entry.record, stored] using given.symm
        rw [blank]
        exact ⟨free_nil '\n', free_nil nul⟩
    | some clear =>
        have same : text = clear := by
          simpa [Entry.found, vlimitsSetflags, Entry.record, stored] using given.symm
        rw [same]
        exact entry.clearFree clear stored

/-- The record as `auth_setpw` prints it. -/
def printedRecord (pw : Vqpasswd) : Vqpasswd := { pw with pwGecos := stripValue pw.pwGecos }

theorem Carried.clearUnbroken {before pw : Vqpasswd} (carried : Carried before pw) :
    Unbroken (pw.pwClearPasswd.getD []) := by
  cases given : pw.pwClearPasswd with
  | none => exact ⟨free_nil '\n', free_nil nul⟩
  | some clear => exact carried.clear clear given

section Printing

variable {before pw : Vqpasswd} (carried : Carried before pw)
  (namePlain : Vcdb.Plain before.pwName) (dirPlain : Vcdb.Plain before.pwDir)

include carried namePlain dirPlain

theorem Carried.isLine (build : Build) : IsLine (vpasswdLine build (printedRecord pw)) := by
  have uid := (plain_spellInt pw.pwUid.toInt).2.1
  have gid := (plain_spellInt pw.pwGid.toInt).2.1
  have name := carried.name ▸ namePlain.2.1
  have dir := carried.dir ▸ dirPlain.2.1
  have clear : Free '\n' (if build.clearPass then ':' :: pw.pwClearPasswd.getD [] else []) := by
    split
    · exact free_cons.mpr ⟨by decide, carried.clearUnbroken.1⟩
    · exact free_nil '\n'
  refine ⟨_, ?_, rfl⟩
  simp only [printedRecord, free_append, free_cons]
  exact ⟨⟨⟨⟨⟨⟨⟨name, by decide, carried.passwd.1⟩, by decide, uid⟩, by decide, gid⟩, by decide,
    free_stripValue carried.gecos.1⟩, by decide, dir⟩, by decide, carried.shell.2.1⟩, clear⟩

theorem Carried.plainRecord (build : Build) (passwdFree : Free ':' pw.pwPasswd)
    (gecosFree : Free ':' (stripValue pw.pwGecos)) : PlainRecord build (printedRecord pw) where
  name := carried.name ▸ namePlain
  passwd := ⟨passwdFree, carried.passwd⟩
  gecos := ⟨gecosFree, free_stripValue carried.gecos.1, free_stripValue carried.gecos.2⟩
  dir := carried.dir ▸ dirPlain
  shell := carried.shell
  clear := fun _ => carried.clearUnbroken

end Printing

/-- A caller without `SA_ADMIN` whose `mod_user` succeeds has replaced one line
of the file. Unless a delimiter is left in the password or the comment of the
record, the record that is found there has the old uid, directory and privileges,
but for `clear_all_flags`. -/
theorem modUser_keepsPrivileges {daemon : Daemon} (sound : daemon.Sound)
    (makesIndex : ∀ domain, (daemon.site domain).noMakeIndex = false) {session : Session}
    (notAdmin : ¬Has session.authVpw.pwGid saAdmin) {files after : Vcdb.Files}
    {entries : List Entry} (text : files.vpasswd = vpasswdText entries)
    (named : ∀ entry ∈ entries, entry.name ≠ []) (fresh : files.Fresh)
    {arguments stdin : List Char}
    (modified : modUser daemon session files arguments stdin = .ok (.ok (0, after))) :
    ∃ user domain before state line,
      Served daemon session files arguments stdin user domain before state (0, after) ∧
      IsLine line ∧
      after.vpasswd = (entries.map fun entry =>
        if user = entry.name then line else entry.line).flatten ∧
      (Free ':' state.tmpvpw.pwPasswd → Free ':' (stripValue state.tmpvpw.pwGecos) →
        ∃ pw, authGetpw (daemon.site domain) after user = .ok (some pw) ∧
          KeepsPrivileges session (parametersOf stdin) before pw) := by
  rcases (modUser_eq_ok_iff daemon session files arguments stdin (0, after)).mp modified with
    ⟨user, domain, before, state, served⟩
  have lower : lowerit user = user := lowerit_addressOf served.addressed
  have reads := (openIndex_of_authGetpw served.found).1
  rcases authGetpw_found fresh text served.found with ⟨fit, entry, first, rfl⟩
  rw [lower] at first
  have sameName : entry.name = user := by simpa using List.find?_some first
  have member := List.mem_of_find?_eq_some first
  have carried := (applyParameters_carried sound session (unbroken_parametersOf stdin)
    (carried_found entry (daemon.site domain))).holds state served.applied
  have bits := (applyParameters_privileges notAdmin daemon (parametersOf stdin)
    ⟨entry.found (daemon.site domain), daemon.crypted.val⟩).holds state served.applied
  have recordName : state.tmpvpw.pwName = user := carried.name.trans sameName
  have fitLonger : ∀ entry ∈ entries, entry.line.length < maxBuff := by
    intro entry member
    exact Nat.lt_trans (fit entry member) (by decide)
  rcases authSetpw_cases carried.gecos.2 text fitLonger named served.set with
    failed | ⟨_, _, set⟩
  · exact absurd rfl failed.1
  have installed : files.install (daemon.site domain) (entries.map fun entry =>
      if user = entry.name then
        vpasswdLine (daemon.site domain).build (printedRecord state.tmpvpw)
      else entry.line).flatten = .ok after := by
    rw [← set, ← recordName]
    rfl
  refine ⟨user, domain, entry.found (daemon.site domain), state,
    vpasswdLine (daemon.site domain).build (printedRecord state.tmpvpw), served,
    carried.isLine entry.name_plain entry.dir_plain _, (install_eq_ok installed).1, ?_⟩
  intro passwdFree gecosFree
  have plain := carried.plainRecord entry.name_plain entry.dir_plain
    (daemon.site domain).build passwdFree gecosFree
  have printedName : (printed plain).name = user := recordName
  have replaced : files.install (daemon.site domain)
      (vpasswdText (replaceEntry (printed plain) entries)) = .ok after := by
    rw [← installed, ← vpasswdText_replaceEntry, ← vpasswdLine_eq_line, printedName]
  have known : ∃ entry ∈ entries, (printed plain).name = entry.name :=
    ⟨entry, member, printedName.trans sameName.symm⟩
  have lowerPrinted : lowerit (printed plain).name = (printed plain).name := by
    rw [printedName, lower]
  rcases (install_eq_ok_iff (makesIndex domain) _ _ _).mp replaced with ⟨_, rfl⟩
  have again := authGetpw_replaced reads known lowerPrinted
  rw [printedName, Entry.found, record_printed] at again
  exact ⟨_, again, carried.uid, carried.dir, bits⟩

/-! ## Callers without `SA_ADMIN` -/

/-- A daemon for `example.com`, with whole numbers in place of `double`. -/
def exampleDaemon : Daemon where
  crypt := fun _ => some "abJnggxhB/yWI".toList
  doubles :=
    { Value := Int
      minusOne := -1
      atof := Decimal.atol
      times := fun value factor => value * factor
      isMinusOne := fun value => value == -1
      print := Decimal.spellInt }
  crypted := ⟨List.replicate cryptedSize nul, List.length_replicate⟩
  defaultDomain := "example.com".toList
  site := fun _ => exampleCom

theorem exampleDaemon_sound : exampleDaemon.Sound where
  crypt := fun _ => ⟨_, rfl, by decide⟩
  print := plain_spellInt

/-- A caller of `example.com` with the given flags. -/
def sessionOf (user : List Char) (flags : BitVec 32) : Session where
  authVpw := { bobLine.found exampleCom with pwName := user, pwGid := flags }
  theUser := user
  theDomain := "example.com".toList
  theUserDir := "/domains/example.com/".toList ++ user
  theDomainDir := "/domains/example.com".toList
  theVpopmailDomains := "/domains".toList

/-- The line of `bob` with other values. -/
def bobWith (gid gecos : List Char) (gidPlain : Vcdb.Plain gid) (gecosPlain : Vcdb.Plain gecos) :
    Entry :=
  { bobLine with
    gid := gid
    gecos := gecos
    plain := by
      intro field member
      simp only [List.mem_cons, List.not_mem_nil, or_false] at member
      rcases member with rfl | rfl | rfl | rfl | rfl | rfl | rfl
      exacts [bobLine.name_plain, bobLine.passwd_plain, bobLine.uid_plain, gidPlain, gecosPlain,
        bobLine.dir_plain, bobLine.shell_plain] }

theorem plain_bob : Vcdb.Plain "Bob".toList := by decide

theorem plain_robert : Vcdb.Plain "Robert".toList := by decide

/-- `bob` with all three privileges. -/
def trustedLine : Entry := bobWith "204800".toList "Bob".toList (by decide) plain_bob

/-- The same with another comment and a flag more. -/
def trustedRobert : Entry := bobWith "466944".toList "Robert".toList (by decide) plain_robert

/-- A domain administrator changes the comment and a flag of an account with all privileges. -/
theorem modUser_keepsPrivileges_trusted :
    modUser exampleDaemon (sessionOf "postmaster".toList qaAdmin) (Files.ofEntries [trustedLine])
        "bob@example.com\n".toList "comment Robert\nno_maildrop 1\n.\n".toList =
      .ok (.ok (0, .ofEntries [trustedRobert])) ∧
    ∃ pw, authGetpw exampleCom (Files.ofEntries [trustedRobert]) "bob".toList = .ok (some pw) ∧
      KeepsPrivileges (sessionOf "postmaster".toList qaAdmin)
        (parametersOf "comment Robert\nno_maildrop 1\n.\n".toList) (trustedLine.found exampleCom)
        pw := by
  have modified : modUser exampleDaemon (sessionOf "postmaster".toList qaAdmin)
      (Files.ofEntries [trustedLine]) "bob@example.com\n".toList
      "comment Robert\nno_maildrop 1\n.\n".toList = .ok (.ok (0, .ofEntries [trustedRobert])) := by
    decide +kernel
  have fresh : (Files.ofEntries [trustedLine]).Fresh :=
    fresh_ofEntries exampleCom.pwline (by decide)
  rcases modUser_keepsPrivileges exampleDaemon_sound (fun _ => rfl) (by decide) rfl (by decide) fresh
    modified with ⟨user, domain, before, state, line, served, -, -, keeps⟩
  have addressed : addressOf exampleDaemon "bob@example.com\n".toList =
      .ok ("bob".toList, "example.com".toList) := by
    decide +kernel
  have found : authGetpw exampleCom (.ofEntries [trustedLine]) "bob".toList =
      .ok (some (trustedLine.found exampleCom)) := by
    decide +kernel
  have applied : (applyParameters exampleDaemon (sessionOf "postmaster".toList qaAdmin)
      (parametersOf "comment Robert\nno_maildrop 1\n.\n".toList)
      ⟨trustedLine.found exampleCom, exampleDaemon.crypted.val⟩).map (fun state =>
        decide (Free ':' state.tmpvpw.pwPasswd ∧ Free ':' (stripValue state.tmpvpw.pwGecos))) =
      .ok true := by
    decide +kernel
  cases addressed.symm.trans served.addressed
  cases found.symm.trans served.found
  rw [served.applied] at applied
  have free := of_decide_eq_true (Except.ok.inj applied)
  exact ⟨modified, keeps free.1 free.2⟩

def clearedLine : Entry := bobWith "0".toList "Bob".toList (by decide) plain_bob

/-- A file with one line, and its index. -/
def filesWith (line : String) : Vcdb.Files :=
  ⟨line.toList, (makeVpasswdCdb exampleCom.pwline line.toList).toOption⟩

/-- The file after `bob` has put six fields into his encrypted password. -/
def injectedFiles : Vcdb.Files :=
  filesWith "bob:x:1:65536:b:/:NOQUOTA:y:1:0:Bob:/domains/example.com/bob:NOQUOTA:secret\n"

/-- A domain administrator with `V_OVERRIDE` takes all privileges of `bob` away,
and `bob` himself becomes a system administrator whose directory is the root. -/
theorem modUser_clears_and_injects :
    (¬Has (sessionOf "postmaster".toList (qaAdmin ||| vOverride)).authVpw.pwGid saAdmin ∧
      modUser exampleDaemon (sessionOf "postmaster".toList (qaAdmin ||| vOverride))
          (Files.ofEntries [trustedLine]) "bob@example.com\n".toList "clear_all_flags 1\n.\n".toList =
        .ok (.ok (0, .ofEntries [clearedLine])) ∧
      ∃ before after,
        authGetpw exampleCom (Files.ofEntries [trustedLine]) "bob".toList = .ok (some before) ∧
        authGetpw exampleCom (Files.ofEntries [clearedLine]) "bob".toList = .ok (some after) ∧
        before.pwGid &&& privileges = privileges ∧ after.pwGid &&& privileges = 0) ∧
    ¬Has (sessionOf "bob".toList 0).authVpw.pwGid saAdmin ∧
      modUser exampleDaemon (sessionOf "bob".toList 0) (Files.ofEntries [bobLine])
          "bob@example.com\n".toList
          "encrypted_password x:1:65536:b:/:NOQUOTA:y\n.\n".toList =
        .ok (.ok (0, injectedFiles)) ∧
      ∃ before after,
        authGetpw exampleCom (Files.ofEntries [bobLine]) "bob".toList = .ok (some before) ∧
        authGetpw exampleCom injectedFiles "bob".toList = .ok (some after) ∧
        ¬Has before.pwGid saAdmin ∧ Has after.pwGid saAdmin ∧
        before.pwDir = "/domains/example.com/bob".toList ∧ after.pwDir = "/".toList := by
  have trusted : authGetpw exampleCom (Files.ofEntries [trustedLine]) "bob".toList =
      .ok (some (trustedLine.found exampleCom)) := by decide +kernel
  have cleared : authGetpw exampleCom (Files.ofEntries [clearedLine]) "bob".toList =
      .ok (some (clearedLine.found exampleCom)) := by decide +kernel
  have ordinary : authGetpw exampleCom (Files.ofEntries [bobLine]) "bob".toList =
      .ok (some (bobLine.found exampleCom)) := by decide +kernel
  have injected : authGetpw exampleCom injectedFiles "bob".toList =
      .ok (some
        { bobRecord "b".toList with
          pwGid := saAdmin
          pwFlags := saAdmin
          pwDir := "/".toList
          pwClearPasswd :=
            some "y:1:0:Bob:/domains/example.com/bob:NOQUOTA:secret".toList }) := by
    decide +kernel
  refine ⟨⟨by decide, by decide +kernel, _, _, trusted, cleared, by decide, by decide⟩,
    by decide, by decide +kernel, _, _, ordinary, injected, ?_⟩
  exact ⟨by decide, by decide, rfl, rfl⟩

end Vpopmail.Vpopmaild

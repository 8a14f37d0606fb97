import Vpopmail.Vpasswd
import Vpopmail.Vpopmaild.Privileges

/-! # `NO_PASSWD_CHNG` under `mod_user`

The flag stops `clear_text_password`, but nothing stops `encrypted_password`,
and a comment that keeps a delimiter moves the clear password in its line. A comment
may also be left by `vcdb_strip_char`, or make a line that `make_vpasswd_cdb` leaves.
-/

namespace Vpopmail.Vpopmaild

open Vpopmail Text Vpopmail.Stream Buffer Vcdb

/-! ## The record that is set -/

/-- The value of the last line with this parameter. -/
def lastValue (name : String) (parameters : List (List Char × List Char)) :
    Option (List Char) :=
  ((parameters.filter fun parameter => parameter.1 == name.toList).getLast?).map Prod.snd

theorem lastValue_cons_other {name : String} {param value : List Char}
    (other : param ≠ name.toList) (parameters : List (List Char × List Char)) :
    lastValue name ((param, value) :: parameters) = lastValue name parameters := by
  rw [lastValue, List.filter_cons_of_neg (by simpa using other), ← lastValue]

theorem lastValue_cons_same (name : String) (value : List Char)
    (parameters : List (List Char × List Char)) :
    lastValue name ((name.toList, value) :: parameters) =
      some ((lastValue name parameters).getD value) := by
  rw [lastValue, List.filter_cons_of_pos (by simp), lastValue, List.getLast?_cons]
  cases (parameters.filter fun parameter => parameter.1 == name.toList).getLast? <;> rfl

/-- The record after the parameters of a caller without override, as far as it
concerns the passwords and the texts around them. -/
structure Proceeds (before : Vqpasswd) (parameters : List (List Char × List Char))
    (after : Vqpasswd) : Prop where
  flags : after.pwFlags = before.pwFlags
  passwd : after.pwPasswd = (lastValue "encrypted_password" parameters).getD before.pwPasswd
  gecos : after.pwGecos = (lastValue "comment" parameters).getD before.pwGecos
  clear : after.pwClearPasswd = before.pwClearPasswd

/-- One line, given how the others go on from it. -/
theorem Proceeds.cons {before middle after : Vqpasswd} {param value : List Char}
    {parameters : List (List Char × List Char)} (rest : Proceeds middle parameters after)
    (first : Proceeds before [(param, value)] middle) :
    Proceeds before ((param, value) :: parameters) after := by
  have last : ∀ name : String, ∀ old : List Char,
      (lastValue name parameters).getD ((lastValue name [(param, value)]).getD old) =
        (lastValue name ((param, value) :: parameters)).getD old := by
    intro name old
    by_cases same : param = name.toList
    · rw [same, lastValue_cons_same, lastValue_cons_same]
      rfl
    · rw [lastValue_cons_other same, lastValue_cons_other same]
      rfl
  exact
    { flags := rest.flags.trans first.flags
      passwd := by rw [rest.passwd, first.passwd, last]
      gecos := by rw [rest.gecos, first.gecos, last]
      clear := rest.clear.trans first.clear }

theorem applyParameter_proceeds {session : Session} (bound : canOverride session = false)
    (daemon : Daemon) {state : Modification} (flagged : Has state.tmpvpw.pwFlags noPasswdChng)
    (param value : List Char) :
    Ensures (applyParameter daemon session state param value) fun after =>
      Proceeds state.tmpvpw [(param, value)] after.tmpvpw := by
  rw [applyParameter]
  split
  · rename_i comment
    apply ensures_ok
    rw [comment]
    exact ⟨rfl, rfl, rfl, rfl⟩
  rename_i comment
  split
  · rename_i quota
    exact absurd (bound.symm.trans quota.1) Bool.false_ne_true
  split
  · rename_i encrypted
    apply ensures_ok
    rw [encrypted]
    exact ⟨rfl, rfl, rfl, rfl⟩
  rename_i encrypted
  split
  · rename_i clearText
    exact absurd flagged clearText.2
  split
  · rename_i clears
    exact absurd (bound.symm.trans clears.1) Bool.false_ne_true
  have kept : ∀ gid, Proceeds state.tmpvpw [(param, value)] { state.tmpvpw with pwGid := gid } := by
    intro gid
    refine ⟨rfl, ?_, ?_, rfl⟩
    · rw [lastValue_cons_other encrypted]
      rfl
    · rw [lastValue_cons_other comment]
      rfl
  split
  · exact ensures_ok (kept state.tmpvpw.pwGid)
  · exact ensures_ok (kept _)

theorem applyParameters_proceeds {session : Session} (bound : canOverride session = false)
    (daemon : Daemon) (parameters : List (List Char × List Char)) {state : Modification}
    (flagged : Has state.tmpvpw.pwFlags noPasswdChng) :
    Ensures (applyParameters daemon session parameters state) fun after =>
      Proceeds state.tmpvpw parameters after.tmpvpw := by
  induction parameters generalizing state with
  | nil => exact ensures_ok ⟨rfl, rfl, rfl, rfl⟩
  | cons parameter parameters induction =>
      rcases parameter with ⟨param, value⟩
      rw [applyParameters]
      apply ensures_bind (applyParameter_proceeds bound daemon flagged param value)
      intro next first
      constructor
      intro after run
      have stillFlagged : Has next.tmpvpw.pwFlags noPasswdChng := first.flags ▸ flagged
      exact ((induction stillFlagged).holds after run).cons first

/-- The parameters of such a caller never leave a buffer. -/
theorem exists_applyParameters {session : Session} (bound : canOverride session = false)
    (daemon : Daemon) (parameters : List (List Char × List Char)) {state : Modification}
    (flagged : Has state.tmpvpw.pwFlags noPasswdChng) :
    ∃ after, applyParameters daemon session parameters state = .ok after := by
  induction parameters generalizing state with
  | nil => exact ⟨state, rfl⟩
  | cons parameter parameters induction =>
      have first : ∃ next,
          applyParameter daemon session state parameter.1 parameter.2 = .ok next := by
        simp only [applyParameter, bound, flagged, Bool.false_eq_true, false_and, not_true_eq_false,
          and_false, if_false]
        split
        · exact ⟨_, rfl⟩
        · split
          · exact ⟨_, rfl⟩
          · split
            · exact ⟨_, rfl⟩
            · exact ⟨_, rfl⟩
      rcases first with ⟨next, applied⟩
      have kept := (applyParameter_proceeds bound daemon flagged parameter.1 parameter.2).holds
        next applied
      have stillFlagged : Has next.tmpvpw.pwFlags noPasswdChng := kept.flags ▸ flagged
      rcases induction stillFlagged with ⟨after, others⟩
      refine ⟨after, ?_⟩
      rw [applyParameters, applied]
      exact others

/-! ## The line that is printed -/

theorem takeWhile_ne_append_same (char : Char) (text rest : List Char) :
    (text ++ char :: rest).takeWhile (· ≠ char) = text.takeWhile (· ≠ char) := by
  rcases free_or_eq_append_cons char text with free | ⟨field, more, free, rfl⟩
  · rw [takeWhile_ne_append_cons free, takeWhile_ne_of_free free]
  · rw [List.append_assoc, List.cons_append, takeWhile_ne_append_cons free,
      takeWhile_ne_append_cons free]

/-- What is found for a line is determined by its text. -/
theorem record_eq_of_line {first second : Entry} (same : first.line = second.line) :
    first.record (some (first.clear.getD [])) = second.record (some (second.clear.getD [])) := by
  have text : (first.name ++ ':' :: first.data) ++ ['\n'] =
      (second.name ++ ':' :: second.data) ++ ['\n'] := by
    simpa [Entry.line] using same
  have parsed := congrArg parseLine (List.append_cancel_right text)
  rw [parseLine_entry, parseLine_entry] at parsed
  exact Except.ok.inj parsed

theorem count_line (entry : Entry) :
    entry.line.count ':' = 6 + (clearTail entry.clear).count ':' := by
  have name := List.count_eq_zero_of_not_mem entry.name_plain.1
  have passwd := List.count_eq_zero_of_not_mem entry.passwd_plain.1
  have uid := List.count_eq_zero_of_not_mem entry.uid_plain.1
  have gid := List.count_eq_zero_of_not_mem entry.gid_plain.1
  have gecos := List.count_eq_zero_of_not_mem entry.gecos_plain.1
  have dir := List.count_eq_zero_of_not_mem entry.dir_plain.1
  have shell := List.count_eq_zero_of_not_mem entry.shell_plain.1
  simp only [Entry.line, Entry.data, List.count_append, List.count_cons_self, name, passwd, uid,
    gid, gecos, dir, shell, List.count_cons_of_ne (show '\n' ≠ ':' by decide), List.count_nil]
  omega

section Printing

variable {before pw : Vqpasswd} (carried : Carried before pw)
  (namePlain : Vcdb.Plain before.pwName) (dirPlain : Vcdb.Plain before.pwDir)

include carried namePlain dirPlain

theorem Carried.count_vpasswdLine {build : Build} (clearPass : build.clearPass = true) :
    (vpasswdLine build (printedRecord pw)).count ':' =
      7 + pw.pwPasswd.count ':' + (stripValue pw.pwGecos).count ':' +
        (pw.pwClearPasswd.getD []).count ':' := by
  have name := List.count_eq_zero_of_not_mem (carried.name ▸ namePlain).1
  have uid := List.count_eq_zero_of_not_mem (plain_spellInt pw.pwUid.toInt).1
  have gid := List.count_eq_zero_of_not_mem (plain_spellInt pw.pwGid.toInt).1
  have dir := List.count_eq_zero_of_not_mem (carried.dir ▸ dirPlain).1
  have shell := List.count_eq_zero_of_not_mem carried.shell.1
  simp only [vpasswdLine, printedRecord, clearPass, if_true, List.count_append,
    List.count_cons_self, name, uid, gid, dir, shell,
    List.count_cons_of_ne (show '\n' ≠ ':' by decide), List.count_nil]
  omega

/-- The line that is printed for a record is found again as one whose password
ends at a delimiter. The clear password is the old one unless there is a
delimiter in front of it. -/
theorem Carried.exists_entry (build : Build) :
    ∃ entry : Entry, entry.line = vpasswdLine build (printedRecord pw) ∧
      entry.name = pw.pwName ∧ entry.passwd = pw.pwPasswd.takeWhile (· ≠ ':') ∧
      (build.clearPass = true → (entry.clear.getD [] = pw.pwClearPasswd.getD [] ↔
        Free ':' pw.pwPasswd ∧ Free ':' (stripValue pw.pwGecos))) := by
  let behind := Decimal.spellInt pw.pwUid.toInt ++ ':' :: (Decimal.spellInt pw.pwGid.toInt ++
    ':' :: (stripValue pw.pwGecos ++ ':' :: (pw.pwDir ++ ':' :: (pw.pwShell ++
      (if build.clearPass then ':' :: pw.pwClearPasswd.getD [] else [])))))
  have shape : vpasswdLine build (printedRecord pw) =
      pw.pwName ++ ':' :: (pw.pwPasswd ++ ':' :: behind) ++ ['\n'] := by
    simp [vpasswdLine, printedRecord, behind]
  have nameHere : Vcdb.Plain pw.pwName := carried.name ▸ namePlain
  have dirHere : Vcdb.Plain pw.pwDir := carried.dir ▸ dirPlain
  have unbroken : Unbroken (pw.pwName ++ ':' :: (pw.pwPasswd ++ ':' :: behind)) := by
    have uid := plain_spellInt pw.pwUid.toInt
    have gid := plain_spellInt pw.pwGid.toInt
    have free : ∀ char, char ≠ ':' → Free char pw.pwName → Free char pw.pwPasswd →
        Free char (Decimal.spellInt pw.pwUid.toInt) →
        Free char (Decimal.spellInt pw.pwGid.toInt) → Free char (stripValue pw.pwGecos) →
        Free char pw.pwDir → Free char pw.pwShell → Free char (pw.pwClearPasswd.getD []) →
          Free char (pw.pwName ++ ':' :: (pw.pwPasswd ++ ':' :: behind)) := by
      intro char notColon name passwd uid gid gecos dir shell clear
      simp only [behind, free_append, free_cons]
      refine ⟨name, notColon, passwd, notColon, uid, notColon, gid, notColon, gecos, notColon,
        dir, notColon, shell, ?_⟩
      split
      · exact free_cons.mpr ⟨notColon, clear⟩
      · exact free_nil char
    exact ⟨free '\n' (by decide) nameHere.2.1 carried.passwd.1 uid.2.1 gid.2.1
        (free_stripValue carried.gecos.1) dirHere.2.1 carried.shell.2.1 carried.clearUnbroken.1,
      free nul (by decide) nameHere.2.2 carried.passwd.2 uid.2.2 gid.2.2
        (free_stripValue carried.gecos.2) dirHere.2.2 carried.shell.2.2 carried.clearUnbroken.2⟩
  have enough : 6 ≤ (pw.pwName ++ ':' :: (pw.pwPasswd ++ ':' :: behind)).count ':' := by
    simp only [behind, List.count_append, List.count_cons_self]
    omega
  rcases Vcdb.exists_entry unbroken.1 unbroken.2 enough with ⟨entry, line⟩
  have text : entry.name ++ ':' :: entry.data =
      pw.pwName ++ ':' :: (pw.pwPasswd ++ ':' :: behind) := by
    have whole : entry.name ++ ':' :: entry.data ++ ['\n'] = entry.line := by
      simp [Entry.line]
    exact List.append_cancel_right (whole.trans line)
  obtain ⟨name, data⟩ := append_cons_inj entry.name_plain.1 nameHere.1 text
  refine ⟨entry, line.trans shape.symm, name, ?_, ?_⟩
  · have fronts := congrArg (List.takeWhile (· ≠ ':')) data
    rw [Entry.data, takeWhile_ne_append_cons entry.passwd_plain.1,
      takeWhile_ne_append_same] at fronts
    exact fronts
  intro clearPass
  constructor
  · intro same
    have counts := carried.count_vpasswdLine namePlain dirPlain clearPass
    rw [shape, ← line, count_line] at counts
    cases given : entry.clear with
    | none =>
        rw [given] at counts
        simp only [clearTail, List.count_nil] at counts
        omega
    | some clear =>
        rw [given, Option.getD_some] at same
        rw [given, same] at counts
        simp only [clearTail, List.count_cons_self] at counts
        constructor
        · apply List.count_eq_zero.mp
          omega
        · apply List.count_eq_zero.mp
          omega
  · intro free
    have plain := carried.plainRecord namePlain dirPlain build free.1 free.2
    have same := record_eq_of_line ((line.trans shape.symm).trans (vpasswdLine_eq_line plain))
    have clear := congrArg Vqpasswd.pwClearPasswd same
    simpa [Entry.record, printed, clearPass, printedRecord] using clear

end Printing

/-! ## The passwords that are found afterwards -/

/-- The passwords of a record, in builds that keep the clear password. -/
structure SamePasswords (build : Build) (before after : Vqpasswd) : Prop where
  passwd : after.pwPasswd = before.pwPasswd
  clear : build.clearPass = true → after.pwClearPasswd = before.pwClearPasswd

/-- `mod_user` keeps to its buffers, changes nothing when it reports an error, and otherwise
leaves a record with the old passwords. -/
def Honours (site : Site) (files : Vcdb.Files) (user : List Char) (before : Vqpasswd)
    (result : Checked (Except Refusal (Int × Vcdb.Files))) : Prop :=
  ∃ outcome, result = .ok outcome ∧ ∀ ret after, outcome = .ok (ret, after) →
    (ret ≠ 0 → after = files) ∧
      (ret = 0 → ∃ pw, authGetpw site after user = .ok (some pw) ∧
        SamePasswords site.build before pw)

/-- The last `encrypted_password` is the old one, and where the line has a clear
password no value pushes it away. -/
structure LeavesPasswords (build : Build) (passwd : List Char)
    (parameters : List (List Char × List Char)) : Prop where
  encrypted : ∀ value ∈ lastValue "encrypted_password" parameters,
    value.takeWhile (· ≠ ':') = passwd
  clear : build.clearPass = true →
    (∀ value ∈ lastValue "encrypted_password" parameters, Free ':' value) ∧
      ∀ value ∈ lastValue "comment" parameters, Free ':' (stripValue value)

/-- The strings that are stripped do not end in an odd number of colons, and the new line
fits the buffer of `make_vpasswd_cdb`. -/
structure StaysInside (build : Build) (before : Vqpasswd)
    (parameters : List (List Char × List Char)) (inpw : Vqpasswd) : Prop where
  comment : ∀ value ∈ lastValue "comment" parameters, (squeeze value).2 = false
  stored : build.clearPass = false → ∀ clear ∈ before.pwClearPasswd, (squeeze clear).2 = false
  short : (vpasswdLine build (printedRecord inpw)).length < pwlineSize

/-- The password functions of one domain's files. Its records are read into
memory of their own, which no later call looks at. -/
def cdbBackend (site : Site) : PasswordStore Vcdb.Files Vqpasswd where
  getpw := fun files user _ => (authGetpw site files user).map fun pw => (pw, files)
  pwFlags := Vqpasswd.pwFlags
  written := fun files pw passwd clear =>
    ({ pw with pwPasswd := passwd, pwClearPasswd := clear <|> pw.pwClearPasswd }, files)
  setpw := fun files inpw _ => authSetpw site files inpw

theorem getD_property (property : List Char → Prop) {old : List Char} (holds : property old)
    (value : Option (List Char)) : property (value.getD old) ↔ ∀ new ∈ value, property new := by
  cases value with
  | none => simpa using holds
  | some new => simp

/-- What is found after the record was set, in terms of the parameters. -/
theorem samePasswords_iff {build : Build} {entry replacement : Entry} {site : Site}
    {parameters : List (List Char × List Char)} {pw : Vqpasswd}
    (proceeds : Proceeds (entry.found site) parameters pw)
    (passwd : replacement.passwd = pw.pwPasswd.takeWhile (· ≠ ':'))
    (clear : build.clearPass = true → (replacement.clear.getD [] = pw.pwClearPasswd.getD [] ↔
      Free ':' pw.pwPasswd ∧ Free ':' (stripValue pw.pwGecos))) :
    SamePasswords build (entry.found site) (replacement.found site) ↔
      LeavesPasswords build entry.passwd parameters := by
  have oldPasswd : entry.passwd.takeWhile (· ≠ ':') = entry.passwd :=
    takeWhile_ne_of_free entry.passwd_plain.1
  have oldGecos : Free ':' (stripValue entry.gecos) := by
    rw [stripValue_of_free entry.gecos_plain.1]
    exact entry.gecos_plain.1
  have passwordKept : (replacement.found site).pwPasswd = (entry.found site).pwPasswd ↔
      ∀ value ∈ lastValue "encrypted_password" parameters,
        value.takeWhile (· ≠ ':') = entry.passwd := by
    rw [← getD_property (fun text => text.takeWhile (· ≠ ':') = entry.passwd) oldPasswd]
    show replacement.passwd = entry.passwd ↔ _
    rw [passwd, proceeds.passwd]
    rfl
  have clearKept : build.clearPass = true →
      ((replacement.found site).pwClearPasswd = (entry.found site).pwClearPasswd ↔
        (∀ value ∈ lastValue "encrypted_password" parameters, Free ':' value) ∧
          ∀ value ∈ lastValue "comment" parameters, Free ':' (stripValue value)) := by
    intro clearPass
    rw [← getD_property (Free ':') entry.passwd_plain.1,
      ← getD_property (fun text => Free ':' (stripValue text)) oldGecos]
    show some (replacement.clear.getD []) = some (entry.clear.getD []) ↔ _
    have found := clear clearPass
    rw [proceeds.clear, proceeds.passwd, proceeds.gecos] at found
    rw [Option.some.injEq]
    exact found
  constructor
  · intro same
    exact ⟨passwordKept.mp same.passwd, fun clearPass =>
      (clearKept clearPass).mp (same.clear clearPass)⟩
  · intro leaves
    exact ⟨passwordKept.mpr leaves.encrypted, fun clearPass =>
      (clearKept clearPass).mpr (leaves.clear clearPass)⟩

/-- In builds that do not print the clear password it is stripped all the same. -/
theorem stripClear_found (entry : Entry) (site : Site) (build : Build) :
    stripClear build (entry.found site).pwClearPasswd = .ok () ↔
      (build.clearPass = false →
        ∀ clear ∈ (entry.found site).pwClearPasswd, (squeeze clear).2 = false) := by
  have given : (entry.found site).pwClearPasswd = some (entry.clear.getD []) := rfl
  have ended : Free nul (entry.clear.getD []) := by
    cases stored : entry.clear with
    | none => exact free_nil nul
    | some clear => exact (entry.clearFree clear stored).2
  cases kept : build.clearPass with
  | true => simp [stripClear, kept]
  | false =>
      cases leaves : (squeeze (entry.clear.getD [])).2 with
      | true => simp [stripClear, kept, given, vcdbStripChar_eq ended, leaves, Except.map]
      | false => simp [stripClear, kept, given, vcdbStripChar_eq ended, leaves, Except.map]

theorem owns_of_reads {site : Site} (reads : site.Reads) :
    site.owns ((site.assign.map (·.2)).getD 0) = true := by
  rcases reads with ⟨dir, uid, assigned, owned⟩
  rw [assigned]
  exact owned

section Setting

variable {site : Site} {files : Vcdb.Files} {entries : List Entry} {entry replacement : Entry}
  {parameters : List (List Char × List Char)} {pw : Vqpasswd}

/-- An accepted record is set unless a string or the line buffer is left. -/
theorem authSetpw_eq_ok_iff (reads : site.Reads) (makesIndex : site.noMakeIndex = false)
    (opened : site.filesOpen = true) (text : files.vpasswd = vpasswdText entries)
    (named : ∀ entry ∈ entries, entry.name ≠ [])
    (fit : ∀ entry ∈ entries, entry.line.length < pwlineSize) (member : entry ∈ entries)
    (carried : Carried (entry.found site) pw)
    (proceeds : Proceeds (entry.found site) parameters pw)
    (accepted : vcheckVqpw site.build pw site.domain = .success)
    (line : replacement.line = vpasswdLine site.build (printedRecord pw))
    (name : replacement.name = pw.pwName) (answer : Int × Vcdb.Files) :
    authSetpw site files pw = .ok answer ↔
      StaysInside site.build (entry.found site) parameters pw ∧
        answer = (0, .ofEntries (replaceEntry replacement entries)) := by
  have owned := owns_of_reads reads
  have comment : (squeeze pw.pwGecos).2 = false ↔
      ∀ value ∈ lastValue "comment" parameters, (squeeze value).2 = false := by
    have old : (squeeze (entry.found site).pwGecos).2 = false := by
      rw [show (entry.found site).pwGecos = entry.gecos from rfl,
        squeeze_of_free entry.gecos_plain.1]
    rw [proceeds.gecos]
    exact getD_property (fun value => (squeeze value).2 = false) old _
  have stored := stripClear_found entry site site.build
  rw [← proceeds.clear] at stored
  have replaced : (entries.map fun entry =>
      if pw.pwName = entry.name then vpasswdLine site.build { pw with
        pwGecos := stripValue pw.pwGecos } else entry.line).flatten =
        vpasswdText (replaceEntry replacement entries) := by
    rw [← vpasswdText_replaceEntry, line, name]
    rfl
  have set := authSetpw_of_accepted carried.gecos.2 text
    (fun entry member => Nat.lt_trans (fit entry member) (by decide)) named accepted owned opened
  rw [replaced] at set
  constructor
  · intro made
    rw [set] at made
    split at made
    · cases made
    next stays =>
      rcases bind_eq_ok made with ⟨_, cleared, rest⟩
      rcases map_eq_ok rest with ⟨after, installed, rfl⟩
      rcases (install_eq_ok_iff makesIndex _ _ _).mp installed with ⟨short, rfl⟩
      have there : replacement ∈ replaceEntry replacement entries :=
        List.mem_map.mpr ⟨entry, member, if_pos (name.trans carried.name)⟩
      refine ⟨⟨comment.mp (Bool.eq_false_iff.mpr stays), ?_, line ▸ short _ there⟩, rfl⟩
      rw [← proceeds.clear]
      exact stored.mp cleared
  · rintro ⟨inside, rfl⟩
    have within : replacement.line.length < pwlineSize := line ▸ inside.short
    have short : ∀ entry ∈ replaceEntry replacement entries, entry.line.length < pwlineSize :=
      forall_replaceEntry within fit
    have installed := (install_eq_ok_iff makesIndex files _ _).mpr ⟨short, rfl⟩
    have cleared := stored.mpr (proceeds.clear ▸ inside.stored)
    rw [set, comment.mpr inside.comment, if_neg Bool.false_ne_true, cleared]
    simp only [Except.bind, installed]
    rfl

/-- The record is found again, with the old passwords or without them. -/
theorem honours_set_iff (reads : site.Reads) (makesIndex : site.noMakeIndex = false)
    (opened : site.filesOpen = true) (text : files.vpasswd = vpasswdText entries)
    (named : ∀ entry ∈ entries, entry.name ≠ [])
    (fit : ∀ entry ∈ entries, entry.line.length < pwlineSize) (member : entry ∈ entries)
    (lower : lowerit entry.name = entry.name) (carried : Carried (entry.found site) pw)
    (proceeds : Proceeds (entry.found site) parameters pw)
    (accepted : vcheckVqpw site.build pw site.domain = .success) :
    Honours site files entry.name (entry.found site)
        ((authSetpw site files pw).map Except.ok) ↔
      LeavesPasswords site.build entry.passwd parameters ∧
        StaysInside site.build (entry.found site) parameters pw := by
  rcases carried.exists_entry entry.name_plain entry.dir_plain site.build with
    ⟨replacement, line, name, passwd, clear⟩
  have replacementName : replacement.name = entry.name := name.trans carried.name
  have known : ∃ entry ∈ entries, replacement.name = entry.name := ⟨entry, member, replacementName⟩
  have again := authGetpw_replaced reads known (replacementName ▸ lower)
  rw [replacementName] at again
  have answers := authSetpw_eq_ok_iff reads makesIndex opened text named fit member carried
    proceeds accepted line name
  have same := samePasswords_iff proceeds passwd clear
  constructor
  · rintro ⟨outcome, ran, kept⟩
    rcases map_eq_ok ran with ⟨answer, made, rfl⟩
    rcases (answers answer).mp made with ⟨inside, rfl⟩
    rcases (kept 0 _ rfl).2 rfl with ⟨found, there, passwords⟩
    cases again.symm.trans there
    exact ⟨same.mp passwords, inside⟩
  · rintro ⟨leaves, inside⟩
    rw [(answers _).mpr ⟨inside, rfl⟩]
    refine ⟨_, rfl, ?_⟩
    rintro ret after ⟨⟩
    exact ⟨fun failed => absurd rfl failed, fun _ => ⟨_, again, same.mpr leaves⟩⟩

end Setting

/-- A `mod_user` of the owner of an account under `NO_PASSWD_CHNG` that comes to set the record
keeps its passwords and to its buffers exactly when the parameters leave the passwords alone and
nothing is left, while `vpasswd` refuses every password. -/
theorem modUser_keepsPasswords {daemon : Daemon} (sound : daemon.Sound)
    (makesIndex : ∀ domain, (daemon.site domain).noMakeIndex = false) {session : Session}
    (notAdmin : ¬Has session.authVpw.pwGid saAdmin)
    (notDomainAdmin : ¬Has session.authVpw.pwGid qaAdmin) {files : Vcdb.Files}
    {entries : List Entry} (text : files.vpasswd = vpasswdText entries)
    (named : ∀ entry ∈ entries, entry.name ≠ []) (fresh : files.Fresh)
    {arguments user domain : List Char} {before : Vqpasswd} (stdin : List Char)
    (addressed : addressOf daemon arguments = .ok (user, domain))
    (allowed : refuses session user domain = none)
    (found : authGetpw (daemon.site domain) files user = .ok (some before))
    (flagged : Has before.pwFlags noPasswdChng) :
    ∃ state,
      applyParameters daemon session (parametersOf stdin) ⟨before, daemon.crypted.val⟩ =
        .ok state ∧
      (Honours (daemon.site domain) files user before
          (modUser daemon session files arguments stdin) ↔
        (vcheckVqpw (daemon.site domain).build state.tmpvpw (daemon.site domain).domain =
            .success → (daemon.site domain).filesOpen = true →
          LeavesPasswords (daemon.site domain).build before.pwPasswd (parametersOf stdin) ∧
            StaysInside (daemon.site domain).build before (parametersOf stdin)
              state.tmpvpw)) ∧
      ∀ change password, ∃ code, code ≠ 0 ∧
        vpasswd (cdbBackend (daemon.site domain)) change files user domain password =
          .ok (code, files) := by
  have lower : lowerit user = user := lowerit_addressOf addressed
  have bound : canOverride session = false := by
    simp [canOverride, notAdmin, notDomainAdmin]
  have reads := (openIndex_of_authGetpw found).1
  rcases authGetpw_found fresh text found with ⟨fit, entry, first, rfl⟩
  rw [lower] at first
  have sameName : entry.name = user := by simpa using List.find?_some first
  have started : Has (Modification.tmpvpw ⟨entry.found (daemon.site domain),
      daemon.crypted.val⟩).pwFlags noPasswdChng := flagged
  rcases exists_applyParameters bound daemon (parametersOf stdin) started with ⟨state, applied⟩
  have carried := (applyParameters_carried sound session (unbroken_parametersOf stdin)
    (carried_found entry (daemon.site domain))).holds state applied
  have proceeds := (applyParameters_proceeds bound daemon (parametersOf stdin) started).holds
    state applied
  have run : modUser daemon session files arguments stdin =
      (authSetpw (daemon.site domain) files state.tmpvpw).map Except.ok := by
    simp only [modUser, addressed, allowed, found, applied, Except.bind]
    rfl
  refine ⟨state, applied, ?_, ?_⟩
  · rw [run]
    by_cases accepted : vcheckVqpw (daemon.site domain).build state.tmpvpw
        (daemon.site domain).domain = .success
    · cases opened : (daemon.site domain).filesOpen with
      | true =>
          subst sameName
          rw [honours_set_iff reads (makesIndex domain) opened text named fit
            (List.mem_of_find?_eq_some first) lower carried proceeds accepted]
          exact ⟨fun both _ _ => both, fun both => both accepted rfl⟩
      | false =>
          refine iff_of_true ?_ fun _ impossible => absurd impossible Bool.false_ne_true
          have owned := owns_of_reads reads
          have answer : authSetpw (daemon.site domain) files state.tmpvpw = .ok (-1, files) := by
            rw [authSetpw, if_neg (not_not_intro accepted), owned, opened]
            rfl
          refine ⟨.ok (-1, files), by rw [answer]; rfl, ?_⟩
          rintro ret after ⟨⟩
          exact ⟨fun _ => rfl, fun zero => absurd zero (by decide)⟩
    · refine iff_of_true ?_ fun impossible => absurd impossible accepted
      rw [authSetpw, if_pos accepted]
      refine ⟨_, rfl, ?_⟩
      rintro ret after ⟨⟩
      exact ⟨fun _ => rfl, fun zero => absurd ((VaCode.number_eq_zero_iff _).mp zero) accepted⟩
  · intro change password
    have looked : (cdbBackend (daemon.site domain)).getpw files (lowerit user)
        (lowerit domain) = .ok (some (entry.found (daemon.site domain)), files) := by
      show (authGetpw (daemon.site domain) files (lowerit user)).map _ = _
      rw [lower, found]
      rfl
    exact vpasswd_refused looked flagged change password

/-- `bob`, who may not change his password. -/
def flaggedLine : Entry := bobWith "1".toList "Bob".toList (by decide) plain_bob

/-- `bob` may change his comment. -/
theorem modUser_keepsPasswords_comment :
    Honours exampleCom (.ofEntries [flaggedLine]) "bob".toList (flaggedLine.found exampleCom)
        (modUser exampleDaemon (sessionOf "bob".toList 1) (.ofEntries [flaggedLine])
          "bob@example.com\n".toList "comment Robert\n.\n".toList) ∧
      ∀ change password, ∃ code, code ≠ 0 ∧
        vpasswd (cdbBackend exampleCom) change (.ofEntries [flaggedLine]) "bob".toList
          "example.com".toList password = .ok (code, .ofEntries [flaggedLine]) := by
  have fresh : (Files.ofEntries [flaggedLine]).Fresh :=
    fresh_ofEntries exampleCom.pwline (by decide)
  have addressed : addressOf exampleDaemon "bob@example.com\n".toList =
      .ok ("bob".toList, "example.com".toList) := by
    decide +kernel
  have found : authGetpw exampleCom (.ofEntries [flaggedLine]) "bob".toList =
      .ok (some (flaggedLine.found exampleCom)) := by
    decide +kernel
  have named : ∀ entry ∈ [flaggedLine], entry.name ≠ [] := by decide
  have allowed : refuses (sessionOf "bob".toList 1) "bob".toList "example.com".toList = none := by
    decide
  rcases modUser_keepsPasswords exampleDaemon_sound (fun _ => rfl) (by decide) (by decide) rfl named
    fresh "comment Robert\n.\n".toList addressed allowed found (by decide) with
    ⟨state, applied, honours, refused⟩
  have encrypted : lastValue "encrypted_password" (parametersOf "comment Robert\n.\n".toList) =
      none := by
    decide +kernel
  have comment : lastValue "comment" (parametersOf "comment Robert\n.\n".toList) =
      some "Robert".toList := by
    decide +kernel
  have line : (applyParameters exampleDaemon (sessionOf "bob".toList 1)
      (parametersOf "comment Robert\n.\n".toList)
      ⟨flaggedLine.found exampleCom, exampleDaemon.crypted.val⟩).map (fun state =>
        decide ((vpasswdLine exampleCom.build (printedRecord state.tmpvpw)).length < pwlineSize)) =
      .ok true := by
    decide +kernel
  rw [applied] at line
  refine ⟨honours.mpr fun _ _ => ⟨⟨?_, fun _ => ⟨?_, ?_⟩⟩, ?_, ?_, ?_⟩, refused⟩
  · rw [encrypted]
    decide
  · rw [encrypted]
    decide
  · rw [comment]
    decide
  · rw [comment]
    decide
  · decide
  · exact of_decide_eq_true (Except.ok.inj line)

/-- `bob` sets an encrypted password in spite of the flag. -/
theorem modUser_changes_flagged :
    ¬Has (sessionOf "bob".toList 1).authVpw.pwGid saAdmin ∧
      ¬Has (sessionOf "bob".toList 1).authVpw.pwGid qaAdmin ∧
      Has (flaggedLine.found exampleCom).pwFlags noPasswdChng ∧
      authGetpw exampleCom (.ofEntries [flaggedLine]) "bob".toList =
        .ok (some (flaggedLine.found exampleCom)) ∧
      ¬Honours exampleCom (.ofEntries [flaggedLine]) "bob".toList (flaggedLine.found exampleCom)
        (modUser exampleDaemon (sessionOf "bob".toList 1) (.ofEntries [flaggedLine])
          "bob@example.com\n".toList "encrypted_password y\n.\n".toList) := by
  let changed := filesWith "bob:y:1:1:Bob:/domains/example.com/bob:NOQUOTA:secret\n"
  have modified : modUser exampleDaemon (sessionOf "bob".toList 1) (.ofEntries [flaggedLine])
      "bob@example.com\n".toList "encrypted_password y\n.\n".toList = .ok (.ok (0, changed)) := by
    decide +kernel
  have again : authGetpw exampleCom changed "bob".toList =
      .ok (some { flaggedLine.found exampleCom with pwPasswd := "y".toList }) := by
    decide +kernel
  refine ⟨by decide, by decide, by decide, by decide +kernel, ?_⟩
  rintro ⟨outcome, ran, honoured⟩
  cases modified.symm.trans ran
  rcases (honoured 0 changed rfl).2 rfl with ⟨pw, found, same⟩
  cases again.symm.trans found
  exact absurd same.passwd (by decide)

end Vpopmail.Vpopmaild

import Vpopmail.AssignCache
import Vpopmail.Vcdb.AccountUpdates
import Vpopmail.Vlimits
import Vpopmail.Vpopmaild.NoPasswdChng

/-! # What a changed account keeps

`vpasswd` and `auth_setquota` read the record of a user, change one field and write the
record back. The flags of the domain's limits go into `pw_flags`, which is not written.
A field with a newline ends the line early, and builds without `CLEAR_PASS` write no
clear password.
-/

namespace Vpopmail.Vcdb

open Vpopmail Text Vpopmail.Stream Buffer

/-! ## Limits -/

def flagMask (value : BitVec 16) (flag : BitVec 32) : BitVec 32 :=
  if value ≠ 0 then flag else 0

/-- `vlimits_get_flag_mask`. -/
def vlimitsGetFlagMask (limits : Vlimits) : BitVec 32 :=
  flagMask limits.disablePop noPop |||
    flagMask limits.disableSmtp noSmtp |||
    flagMask limits.disableImap noImap |||
    flagMask limits.disableRelay noRelay |||
    flagMask limits.disableWebmail noWebmail |||
    flagMask limits.disablePasswordchanging noPasswdChng |||
    flagMask limits.disableDialup noDialup |||
    flagMask limits.disableSpamassassin noSpamassassin |||
    flagMask limits.deleteSpam deleteSpam |||
    flagMask limits.disableMaildrop noMaildrop

/-- The domain with these limits, unless `vget_limits` fails. -/
def Site.under (site : Site) (limits : Option Vlimits) : Site :=
  { site with limitsFlags := limits.map vlimitsGetFlagMask }

/-! ## `auth_setquota` -/

def authSetquota (site : Site) (files : Files) (username quota : List Char) : Checked (Int × Files) :=
  if username.length > maxPwName then .ok (VaCode.userNameTooLong.number, files)
  else if site.build.usersBigDir && username.length = 1 then
    .ok (VaCode.illegalUsername.number, files)
  else if site.domain.length > maxPwDomain then .ok (VaCode.domainNameTooLong.number, files)
  else if quota.length > maxPwQuota then .ok (VaCode.quotaTooLong.number, files)
  else
    (authGetpw site files username).bind fun
      | none => .ok (VaCode.userDoesNotExist.number, files)
      | some vpw => authSetpw site files { vpw with pwShell := quota }

/-- A successful call has set the record that it found. -/
theorem authSetquota_success {site : Site} {files after : Files}
    {username quota : List Char}
    (succeeded : authSetquota site files username quota = .ok (0, after)) :
    ∃ vpw, authGetpw site files username = .ok (some vpw) ∧
      authSetpw site files { vpw with pwShell := quota } = .ok (0, after) := by
  rw [authSetquota] at succeeded
  split at succeeded
  · cases succeeded
  split at succeeded
  · cases succeeded
  split at succeeded
  · cases succeeded
  split at succeeded
  · cases succeeded
  cases found : authGetpw site files username with
  | error fault =>
      rw [found] at succeeded
      cases succeeded
  | ok vpw =>
      rw [found] at succeeded
      cases vpw with
      | none => cases succeeded
      | some vpw => exact ⟨vpw, rfl, succeeded⟩

/-! ## The first line of a printed record -/

/-- A record whose texts were found in the file, but for the new value of a field. -/
structure Updated (pw : Vqpasswd) : Prop where
  name : Plain pw.pwName
  passwd : Plain pw.pwPasswd
  gecos : Plain pw.pwGecos
  dir : Plain pw.pwDir
  shellColon : Free ':' pw.pwShell
  shellNul : Free nul pw.pwShell
  clear : Free nul (pw.pwClearPasswd.getD [])

/-- The record as it is printed in front of the first newline. -/
def firstLine (build : Build) (pw : Vqpasswd) : Vqpasswd :=
  { pw with
    pwShell := pw.pwShell.takeWhile (· ≠ '\n')
    pwClearPasswd :=
      if build.clearPass && decide (Free '\n' pw.pwShell) then
        some ((pw.pwClearPasswd.getD []).takeWhile (· ≠ '\n'))
      else some [] }

theorem found_printed {build : Build} {pw : Vqpasswd} (plain : PlainRecord build pw)
    (site : Site) :
    (printed plain).found site = vlimitsSetflags site
      { pw with pwClearPasswd := some ((printed plain).clear.getD []) } := by
  rw [Entry.found, record_printed]
  rfl

theorem exists_firstLine (build : Build) {pw : Vqpasswd} (updated : Updated pw) :
    ∃ (entry : Entry) (rest : List Char), vpasswdLine build pw = entry.line ++ rest ∧
      entry.name = pw.pwName ∧
      ∀ site, entry.found site = vlimitsSetflags site (firstLine build pw) := by
  rcases free_or_eq_append_cons '\n' pw.pwShell with shellFree | ⟨shell, more, free, broken⟩
  · have whole : pw.pwShell.takeWhile (· ≠ '\n') = pw.pwShell := takeWhile_ne_of_free shellFree
    have shellPlain : Plain pw.pwShell := ⟨updated.shellColon, shellFree, updated.shellNul⟩
    cases clearPass : build.clearPass with
    | false =>
        have plain : PlainRecord build pw :=
          ⟨updated.name, updated.passwd, updated.gecos, updated.dir, shellPlain,
            fun set => absurd (clearPass.symm.trans set) Bool.false_ne_true⟩
        refine ⟨printed plain, [], ?_, rfl, ?_⟩
        · rw [vpasswdLine_eq_line plain, List.append_nil]
        · intro site
          rw [found_printed, firstLine, whole]
          simp [printed, clearPass]
    | true =>
        rcases free_or_eq_append_cons '\n' (pw.pwClearPasswd.getD []) with
          clearFree | ⟨clear, more, free, broken⟩
        · have kept : (pw.pwClearPasswd.getD []).takeWhile (· ≠ '\n') =
              pw.pwClearPasswd.getD [] := takeWhile_ne_of_free clearFree
          have plain : PlainRecord build pw :=
            ⟨updated.name, updated.passwd, updated.gecos, updated.dir, shellPlain,
              fun _ => ⟨clearFree, updated.clear⟩⟩
          refine ⟨printed plain, [], ?_, rfl, ?_⟩
          · rw [vpasswdLine_eq_line plain, List.append_nil]
          · intro site
            rw [found_printed, firstLine, whole, kept]
            simp [printed, clearPass, shellFree]
        · have nulFree := updated.clear
          rw [broken, free_append] at nulFree
          have cut : (pw.pwClearPasswd.getD []).takeWhile (· ≠ '\n') = clear := by
            rw [broken]
            exact takeWhile_ne_append_cons free more
          have plain : PlainRecord build { pw with pwClearPasswd := some clear } :=
            ⟨updated.name, updated.passwd, updated.gecos, updated.dir, shellPlain,
              fun _ => ⟨free, nulFree.1⟩⟩
          refine ⟨printed plain, more ++ ['\n'], ?_, rfl, ?_⟩
          · rw [← vpasswdLine_eq_line plain]
            simp [vpasswdLine, clearPass, broken]
          · intro site
            rw [found_printed, firstLine, whole, cut]
            simp [printed, clearPass, shellFree]
  · have colonFree := updated.shellColon
    have nulFree := updated.shellNul
    rw [broken, free_append] at colonFree nulFree
    have shellBroken : ¬Free '\n' pw.pwShell := by
      rw [broken]
      exact fun unbroken => unbroken (List.mem_append_right _ List.mem_cons_self)
    have cut : pw.pwShell.takeWhile (· ≠ '\n') = shell := by
      rw [broken]
      exact takeWhile_ne_append_cons free more
    have plain : PlainRecord { build with clearPass := false } { pw with pwShell := shell } :=
      ⟨updated.name, updated.passwd, updated.gecos, updated.dir,
        ⟨colonFree.1, free, nulFree.1⟩, fun set => absurd set Bool.false_ne_true⟩
    refine ⟨printed plain, more ++
      (if build.clearPass then ':' :: pw.pwClearPasswd.getD [] else []) ++ ['\n'], ?_, rfl, ?_⟩
    · rw [← vpasswdLine_eq_line plain]
      simp [vpasswdLine, broken]
    · intro site
      rw [found_printed, firstLine, cut]
      simp [printed, shellBroken]

/-! ## Looking up the first line -/

theorem indexChunks_append {entries : List Entry} {chunks : List (List Char)}
    {cells : List Char} {index : Index}
    (made : indexChunks cells (entries.map Entry.line ++ chunks) = .ok index) :
    ∃ others, index = entries.map Entry.pair ++ others := by
  induction entries generalizing cells index with
  | nil => exact ⟨index, rfl⟩
  | cons entry entries induction =>
      rw [List.map_cons, List.cons_append, indexChunks, hitsEof_line,
        if_neg Bool.false_ne_true, splitEntry_storeChunk] at made
      simp only [Except.bind] at made
      split at made
      · cases made
      · rename_i later madeLater
        rcases induction madeLater with ⟨others, rfl⟩
        exact ⟨others, (Except.ok.inj made).symm⟩

/-- An index that was made holds the first line of each record in order. -/
theorem makeVpasswdCdb_behind {pwline : Pwline} {before : List Entry}
    (fit : ∀ entry ∈ before, entry.line.length < pwlineSize) {entry : Entry}
    {rest : List Char} {index : Index}
    (made : makeVpasswdCdb pwline (vpasswdText before ++ (entry.line ++ rest)) = .ok index) :
    ∃ others, index = before.map Entry.pair ++ entry.pair :: others := by
  have short : entry.line.length < pwlineSize := by
    by_contra long
    rw [makeVpasswdCdb_error_behind pwline fit (Nat.le_of_not_lt long)] at made
    cases made
  have lines : ∀ line ∈ (before ++ [entry]).map Entry.line,
      IsLine line ∧ line.length < pwlineSize := by
    intro line member
    rcases List.mem_map.mp member with ⟨other, otherMember, rfl⟩
    rcases List.mem_append.mp otherMember with earlier | last
    · exact ⟨other.isLine, fit other earlier⟩
    · rw [List.mem_singleton.mp last]
      exact ⟨entry.isLine, short⟩
  have split : vpasswdText before ++ (entry.line ++ rest) =
      ((before ++ [entry]).map Entry.line).flatten ++ rest := by
    simp [vpasswdText]
  rw [makeVpasswdCdb, split, fgetsLoop_lines_append (by decide) lines] at made
  rcases indexChunks_append made with ⟨others, rfl⟩
  exact ⟨others, by simp⟩

theorem authGetpw_of_lookup {site : Site} {files : Files} {user : List Char} {index : Index}
    (reads : site.Reads) (opened : openIndex site files = some (.ok index)) {entry : Entry}
    (first : index.lookup (lowerit user) = some entry.data)
    (named : entry.name = lowerit user) :
    authGetpw site files user = .ok (some (entry.found site)) := by
  rcases reads with ⟨dir, uid, assigned, owned⟩
  have parsed := parseLine_entry entry
  rw [named] at parsed
  simp only [authGetpw, assigned, owned, opened, Except.bind, first, parsed]
  rfl

/-! ## Reading a record that was set -/

/-- The index behind a record that is found. -/
theorem openIndex_install {site reader : Site} {files after : Files} {vpasswd : List Char}
    {index : Index} (installed : files.install site vpasswd = .ok after)
    (opened : openIndex reader after = some (.ok index)) :
    (site.noMakeIndex = true ∧ openIndex reader files = some (.ok index)) ∨
      ∃ pwline, makeVpasswdCdb pwline vpasswd = .ok index := by
  rcases install_eq_ok installed with ⟨text, ⟨keeps, same⟩ | ⟨_, fresh, made, there⟩⟩
  · rw [openIndex, same, text] at opened
    cases given : files.cdb with
    | some old =>
        rw [given] at opened
        refine .inl ⟨keeps, ?_⟩
        rw [openIndex, given]
        exact opened
    | none =>
        rw [given] at opened
        simp only at opened
        split at opened
        · cases opened
        · exact .inr ⟨reader.pwline, Option.some.inj opened⟩
  · rw [openIndex, there] at opened
    cases opened
    exact .inr ⟨site.pwline, made⟩

theorem authGetpw_congr {site : Site} {files after : Files}
    (same : openIndex site after = openIndex site files) (user : List Char) :
    authGetpw site after user = authGetpw site files user := by
  simp only [authGetpw, same]

section Setting

variable {site reader : Site} {files after : Files} {entries : List Entry}
  {user : List Char} {before inpw pw : Vqpasswd}

/-- What is found after a record was set is the first line that was printed for it, or the
old record where the old index was kept. -/
theorem authGetpw_set (text : files.vpasswd = vpasswdText entries)
    (named : ∀ entry ∈ entries, entry.name ≠ []) (fresh : files.Fresh)
    (held : authGetpw reader files user = .ok (some before)) (updated : Updated inpw)
    (name : inpw.pwName = lowerit user)
    (set : authSetpw site files inpw = .ok (0, after))
    (found : authGetpw reader after user = .ok (some pw)) :
    pw = before ∨ pw = vlimitsSetflags reader (firstLine site.build inpw) := by
  rcases authGetpw_found fresh text held with ⟨fit, old, first, rfl⟩
  have longer : ∀ entry ∈ entries, entry.line.length < maxBuff := by
    intro entry member
    exact Nat.lt_trans (fit entry member) (by decide)
  rcases authSetpw_cases updated.gecos.2.2 text longer named set with failed | ⟨_, _, installed⟩
  · exact absurd rfl failed.1
  rw [stripValue_of_free updated.gecos.1] at installed
  rcases openIndex_of_authGetpw found with ⟨reads, index, opened⟩
  rcases openIndex_install installed opened with ⟨_, kept⟩ | ⟨pwline, made⟩
  · have same := authGetpw_congr (opened.trans kept.symm) user
    rw [found, held] at same
    exact .inl (Option.some.inj (Except.ok.inj same))
  · rcases List.find?_eq_some_iff_append.mp first with ⟨same, earlier, later, rfl, others⟩
    have sameName : old.name = lowerit user := by simpa using same
    rcases exists_firstLine site.build updated with ⟨entry, rest, printed, entryName, shown⟩
    have different : ∀ other ∈ earlier, inpw.pwName ≠ other.name := by
      intro other member equal
      have unlike := others other member
      rw [← equal, name] at unlike
      simp at unlike
    have kept : (earlier.map fun other => if inpw.pwName = other.name then
        vpasswdLine site.build inpw else other.line).flatten = vpasswdText earlier := by
      rw [vpasswdText]
      congr 1
      apply List.map_congr_left
      intro other member
      rw [if_neg (different other member)]
    rw [List.map_append, List.flatten_append, List.map_cons, List.flatten_cons, kept,
      if_pos (name.trans sameName.symm), printed, List.append_assoc] at made
    have earlierFit : ∀ other ∈ earlier, other.line.length < pwlineSize :=
      fun other member => fit other (List.mem_append_left _ member)
    rcases makeVpasswdCdb_behind earlierFit made with ⟨more, rfl⟩
    have looked : (earlier.map Entry.pair ++ entry.pair :: more).lookup (lowerit user) =
        some entry.data := by
      have absent : (earlier.find? fun other => other.name = lowerit user) = none := by
        rw [List.find?_eq_none]
        intro other member
        simpa using fun equal : other.name = lowerit user =>
          different other member (name.trans equal.symm)
      rw [List.lookup_append, lookup_pairs, absent, Option.map_none, Option.none_or,
        ← name, ← entryName]
      simp [Entry.pair]
    have answer := authGetpw_of_lookup reads opened looked (entryName.trans name)
    rw [found] at answer
    exact .inr ((Option.some.inj (Except.ok.inj answer)).trans (shown reader))

/-- Every line of the file fits the buffer of `make_vpasswd_cdb`. -/
def Files.Fit (files : Files) : Prop :=
  ∀ line ∈ wholeLines files.vpasswd, line.length < pwlineSize

theorem wholeLines_vpasswdText (entries : List Entry) :
    wholeLines (vpasswdText entries) = entries.map Entry.line := by
  have whole : ∀ line ∈ entries.map Entry.line, IsLine line := by
    intro line member
    rcases List.mem_map.mp member with ⟨entry, _, rfl⟩
    exact entry.isLine
  have lines := wholeLines_flatten_append whole []
  rw [List.append_nil] at lines
  rw [vpasswdText, lines, wholeLines, List.append_nil]

/-- A record whose texts stay in their line is found after it was set. -/
theorem exists_authGetpw_set (text : files.vpasswd = vpasswdText entries)
    (named : ∀ entry ∈ entries, entry.name ≠ []) (fresh : files.Fresh)
    (held : authGetpw reader files user = .ok (some before))
    (plain : PlainRecord site.build inpw)
    (set : authSetpw site files inpw = .ok (0, after)) (fit : after.Fit)
    (name : inpw.pwName = lowerit user) :
    ∃ pw, authGetpw reader after user = .ok (some pw) := by
  rcases authGetpw_found fresh text held with ⟨shorter, old, first, rfl⟩
  have longer : ∀ entry ∈ entries, entry.line.length < maxBuff := by
    intro entry member
    exact Nat.lt_trans (shorter entry member) (by decide)
  rcases authSetpw_cases plain.gecos.2.2 text longer named set with failed | ⟨_, _, installed⟩
  · exact absurd rfl failed.1
  rw [stripValue_of_free plain.gecos.1, vpasswdLine_eq_line plain] at installed
  have written : files.install site (vpasswdText (replaceEntry (printed plain) entries)) =
      .ok after := by
    rw [← installed, ← vpasswdText_replaceEntry]
    rfl
  rcases install_eq_ok written with ⟨newText, placed⟩
  rw [Files.Fit, newText, wholeLines_vpasswdText] at fit
  have short : ∀ entry ∈ replaceEntry (printed plain) entries, entry.line.length < pwlineSize :=
    fun entry member => fit entry.line (List.mem_map_of_mem member)
  have sameName : (printed plain).name = lowerit user := name
  have member := List.mem_of_find?_eq_some first
  have oldName : old.name = lowerit user := by simpa using List.find?_some first
  have known : ∃ entry ∈ entries, (printed plain).name = entry.name :=
    ⟨old, member, sameName.trans oldName.symm⟩
  rcases openIndex_of_authGetpw held with ⟨reads, index, opened⟩
  have made := fun pwline => makeVpasswdCdb_vpasswdText pwline short
  have indexFound (opened : openIndex reader after =
      some (.ok ((replaceEntry (printed plain) entries).map Entry.pair))) :
        ∃ pw, authGetpw reader after user = .ok (some pw) := by
    rw [authGetpw_of_opened reads opened, ← sameName, find_replaceEntry known]
    exact ⟨_, rfl⟩
  rcases placed with ⟨_, same⟩ | ⟨_, fresh, madeNow, there⟩
  · cases given : files.cdb with
    | some kept =>
        refine ⟨old.found reader, ?_⟩
        rw [← held]
        apply authGetpw_congr
        rw [openIndex, openIndex, same, given]
    | none =>
        apply indexFound
        rw [openIndex, given] at opened
        simp only at opened
        split at opened
        · cases opened
        · rename_i readable
          rw [openIndex, same, given, newText, made]
          simp only [if_neg readable]
  · apply indexFound
    rw [openIndex, there]
    rw [made] at madeNow
    cases madeNow
    rfl

end Setting

/-! ## The frames -/

/-- The records differ in the passwords only. -/
def OnlyPassword (before after : Vqpasswd) : Prop :=
  after = { before with pwPasswd := after.pwPasswd, pwClearPasswd := after.pwClearPasswd }

/-- The records differ in the quota only, and in the clear password when the build does not
write it or the quota ends the line. -/
structure OnlyQuota (build : Build) (quota : List Char) (before after : Vqpasswd) : Prop where
  same : after = { before with pwShell := after.pwShell, pwClearPasswd := after.pwClearPasswd }
  clear : build.clearPass = true → Free '\n' quota → after.pwClearPasswd = before.pwClearPasswd

/-- Flags of the limits are no part of what is kept in an account: `pw_gid` is the same. -/
theorem OnlyPassword.pwGid {before after : Vqpasswd} (only : OnlyPassword before after) :
    after.pwGid = before.pwGid := by
  rw [only]

theorem OnlyQuota.pwGid {build : Build} {quota : List Char} {before after : Vqpasswd}
    (only : OnlyQuota build quota before after) : after.pwGid = before.pwGid := by
  rw [only.same]

section Frames

variable {site reader : Site} {entry : Entry}

theorem clear_found (entry : Entry) (site : Site) :
    (entry.found site).pwClearPasswd = some (entry.clear.getD []) := rfl

theorem free_clear (entry : Entry) :
    Free '\n' (entry.clear.getD []) ∧ Free nul (entry.clear.getD []) := by
  cases given : entry.clear with
  | none => exact ⟨free_nil _, free_nil _⟩
  | some clear => exact entry.clearFree clear given

theorem updated_passwd (entry : Entry) (site : Site) {passwd : List Char} (plain : Plain passwd)
    {clear : Option (List Char)} (free : ∀ text ∈ clear, Free nul text) :
    Updated { entry.found site with
      pwPasswd := passwd
      pwClearPasswd := clear <|> (entry.found site).pwClearPasswd } where
  name := entry.name_plain
  passwd := plain
  gecos := entry.gecos_plain
  dir := entry.dir_plain
  shellColon := entry.shell_plain.1
  shellNul := entry.shell_plain.2.2
  clear := by
    cases clear with
    | none => exact (free_clear entry).2
    | some text => exact free text rfl

theorem updated_shell (entry : Entry) (site : Site) {quota : List Char} (colonFree : Free ':' quota)
    (nulFree : Free nul quota) : Updated { entry.found site with pwShell := quota } where
  name := entry.name_plain
  passwd := entry.passwd_plain
  gecos := entry.gecos_plain
  dir := entry.dir_plain
  shellColon := colonFree
  shellNul := nulFree
  clear := (free_clear entry).2

theorem onlyPassword_firstLine (build : Build) (passwd : List Char)
    (clear : Option (List Char)) :
    OnlyPassword (entry.found reader) (vlimitsSetflags reader (firstLine build
      { entry.found site with pwPasswd := passwd, pwClearPasswd := clear })) := by
  have whole : entry.shell.takeWhile (· ≠ '\n') = entry.shell :=
    takeWhile_ne_of_free entry.shell_plain.2.1
  rw [firstLine]
  change OnlyPassword _ (vlimitsSetflags reader
    { entry.found site with
      pwPasswd := passwd
      pwShell := entry.shell.takeWhile (· ≠ '\n')
      pwClearPasswd := _ })
  rw [whole]
  rfl

theorem onlyQuota_firstLine (build : Build) (quota : List Char) :
    OnlyQuota build quota (entry.found reader) (vlimitsSetflags reader (firstLine build
      { entry.found site with pwShell := quota })) where
  same := rfl
  clear := by
    intro clearPass free
    have kept : (entry.clear.getD []).takeWhile (· ≠ '\n') = entry.clear.getD [] :=
      takeWhile_ne_of_free (free_clear entry).1
    simp only [vlimitsSetflags, firstLine, clearPass, free, decide_true, Bool.and_self, if_true,
      clear_found, Option.getD_some, kept]

end Frames

/-- Whoever reads the record of a well-formed file after a successful `vpasswd` finds the
old one with other passwords, and after a successful `auth_setquota` the old one with
another quota, whatever limits the writer and the reader have. -/
theorem account_frame {files : Files} {entries : List Entry}
    (text : files.vpasswd = vpasswdText entries) (named : ∀ entry ∈ entries, entry.name ≠ [])
    (fresh : files.Fresh) (site reader : Site) (limits read : Option Vlimits)
    {user : List Char} {before : Vqpasswd}
    (held : authGetpw (reader.under read) files user = .ok (some before)) (after : Files) :
    (∀ change domain password, Free nul password →
      (∀ passwd, stringAt (mkpasswd3 change.encryption password change.crypted.val) 0 =
        .ok passwd → Plain passwd) →
      vpasswd (Vpopmaild.cdbBackend (site.under limits)) change files user domain
        password = .ok (0, after) →
      (∀ pw, authGetpw (reader.under read) after user = .ok (some pw) →
          OnlyPassword before pw) ∧
        (Free '\n' password → after.Fit →
          ∃ pw, authGetpw (reader.under read) after user = .ok (some pw))) ∧
    ∀ quota, Free ':' quota → Free nul quota →
      authSetquota (site.under limits) files user quota = .ok (0, after) →
      (∀ pw, authGetpw (reader.under read) after user = .ok (some pw) →
          OnlyQuota site.build quota before pw) ∧
        (Free '\n' quota → after.Fit →
          ∃ pw, authGetpw (reader.under read) after user = .ok (some pw)) := by
  rcases authGetpw_found fresh text held with ⟨fit, entry, first, same⟩
  have name : entry.name = lowerit user := by simpa using List.find?_some first
  have mine : ∀ {pw : Vqpasswd} {name : List Char}, lowerit name = lowerit user →
      authGetpw (site.under limits) files name = .ok (some pw) →
        pw = entry.found (site.under limits) := by
    intro pw name sameName looked
    rcases authGetpw_found fresh text looked with ⟨_, other, otherFirst, rfl⟩
    rw [sameName, first, Option.some.injEq] at otherFirst
    rw [otherFirst]
  constructor
  · intro change domain password nulFree plain succeeded
    rcases vpasswd_success succeeded with ⟨mypw, looked, passwd, changed⟩
    have getpw := changed.found
    change (authGetpw (site.under limits) files (lowerit user)).map (fun pw => (pw, files)) =
      .ok (some mypw, looked) at getpw
    cases found : authGetpw (site.under limits) files (lowerit user) with
    | error fault =>
        rw [found] at getpw
        cases getpw
    | ok record =>
        rw [found] at getpw
        cases getpw
        rcases mine (lowerit_lowerit user) found with rfl
        have clearFree : ∀ text ∈ change.clear password, Free nul text := by
          intro text given
          rw [PasswordChange.clear] at given
          split at given
          · exact Option.some.inj given ▸ nulFree
          · cases given
        have updated := updated_passwd entry (site.under limits)
          (plain passwd changed.crypted) clearFree
        constructor
        · intro pw there
          rcases authGetpw_set text named fresh held updated name changed.set there with
            rfl | rfl
          · rfl
          · rw [same]
            exact onlyPassword_firstLine _ _ _
        · intro lineFree fits
          refine exists_authGetpw_set text named fresh held ?_ changed.set fits name
          refine ⟨updated.name, updated.passwd, updated.gecos, updated.dir,
            entry.shell_plain, ?_⟩
          intro _
          refine ⟨?_, updated.clear⟩
          change Free '\n' ((change.clear password <|> some (entry.clear.getD [])).getD [])
          rw [PasswordChange.clear]
          split
          · exact lineFree
          · exact (free_clear entry).1
  · intro quota colonFree nulFree succeeded
    rcases authSetquota_success succeeded with ⟨vpw, looked, set⟩
    rcases mine rfl looked with rfl
    have updated := updated_shell entry (site.under limits) colonFree nulFree
    constructor
    · intro pw there
      rcases authGetpw_set text named fresh held updated name set there with rfl | rfl
      · exact ⟨rfl, fun _ _ => rfl⟩
      · rw [same]
        exact onlyQuota_firstLine _ _
    · intro lineFree fits
      refine exists_authGetpw_set text named fresh held ?_ set fits name
      exact ⟨updated.name, updated.passwd, updated.gecos, updated.dir,
        ⟨colonFree, lineFree, nulFree⟩, fun _ => free_clear entry⟩

/-- The domain of `bob` in a build without `CLEAR_PASS`. -/
def withoutClear : Site :=
  { exampleCom with build := { exampleCom.build with clearPass := false } }

/-- Limits that take the right to change passwords away. -/
def fixedPasswords : Vlimits := { vdefaultLimits with disablePasswordchanging := 1 }

/-- The change of a password where all are strong and `crypt` prints the same text. -/
def bobChange : PasswordChange where
  build := exampleCom.build
  encryption := exampleEncryption
  rules :=
    { length := fun _ => true
      alphabet := fun _ _ => true
      numeric := fun _ _ => true
      other := fun _ _ => true
      upperlower := fun _ _ => true }
  crypted := ⟨List.replicate maxBuff nul, List.length_replicate⟩

/-- `bob` gets another password, then another quota, and is read when the limits have been
changed. -/
theorem account_frame_bob :
    let before := bobLine.found (exampleCom.under (some fixedPasswords))
    (∀ pw, authGetpw (exampleCom.under (some fixedPasswords))
        (Vpopmaild.filesWith "bob:aaJnggxhB/yWI:1:0:Bob:/domains/example.com/bob:NOQUOTA:new\n")
        "bob".toList = .ok (some pw) → OnlyPassword before pw) ∧
      ∀ pw, authGetpw (exampleCom.under (some fixedPasswords))
        (Vpopmaild.filesWith "bob:x:1:0:Bob:/domains/example.com/bob:10S:secret\n")
        "bob".toList = .ok (some pw) → OnlyQuota exampleCom.build "10S".toList before pw := by
  intro before
  have held : authGetpw (exampleCom.under (some fixedPasswords)) (.ofEntries [bobLine])
      "bob".toList = .ok (some before) := by decide +kernel
  have text : (Files.ofEntries [bobLine]).vpasswd = vpasswdText [bobLine] := rfl
  have kept := account_frame text (by decide) (fresh_ofEntries exampleCom.pwline (by decide))
    exampleCom exampleCom (some vdefaultLimits) (some fixedPasswords) held
  constructor
  · have changed := (kept (Vpopmaild.filesWith
      "bob:aaJnggxhB/yWI:1:0:Bob:/domains/example.com/bob:NOQUOTA:new\n")).1 bobChange
        "example.com".toList "new".toList (by decide)
    have crypted : stringAt (mkpasswd3 bobChange.encryption "new".toList bobChange.crypted.val) 0 =
        .ok "aaJnggxhB/yWI".toList := by decide +kernel
    refine (changed ?_ (by decide +kernel)).1
    intro passwd made
    rw [crypted] at made
    cases made
    decide
  · have changed := (kept (Vpopmaild.filesWith
      "bob:x:1:0:Bob:/domains/example.com/bob:10S:secret\n")).2 "10S".toList (by decide)
        (by decide)
    exact (changed (by decide +kernel)).1

/-- `auth_setquota` changes nothing but the quota, in builds with or without `CLEAR_PASS`. -/
def QuotaAlone (clearPass : Bool) : Prop :=
  ∀ (files after : Files) (entries : List Entry) (site : Site) (limits : Option Vlimits)
    (user quota : List Char) (before pw : Vqpasswd),
    site.build.clearPass = clearPass →
    files.vpasswd = vpasswdText entries → (∀ entry ∈ entries, entry.name ≠ []) →
    files.Fresh → after.Fit → Free ':' quota → Free nul quota →
    authGetpw (site.under limits) files user = .ok (some before) →
    authSetquota (site.under limits) files user quota = .ok (0, after) →
    authGetpw (site.under limits) after user = .ok (some pw) →
      pw = { before with pwShell := pw.pwShell }

/-- The clear password of the line is lost in a build that does not write it, and in every
build when the quota ends the line. -/
theorem not_account_frame : ¬QuotaAlone false ∧ ¬QuotaAlone true := by
  have fits : (Vpopmaild.filesWith "bob:x:1:0:Bob:/domains/example.com/bob:10S\n").Fit := by
    unfold Files.Fit
    decide +kernel
  have splits : (Vpopmaild.filesWith "bob:x:1:0:Bob:/domains/example.com/bob:1\n:secret\n").Fit := by
    unfold Files.Fit
    decide +kernel
  constructor
  · intro alone
    have found : authGetpw (withoutClear.under (some vdefaultLimits))
        (Vpopmaild.filesWith "bob:x:1:0:Bob:/domains/example.com/bob:10S\n") "bob".toList =
          .ok (some { bobLine.found (withoutClear.under (some vdefaultLimits)) with
            pwShell := "10S".toList, pwClearPasswd := some [] }) := by decide +kernel
    have same := alone (.ofEntries [bobLine]) _ [bobLine] withoutClear
      (some vdefaultLimits) "bob".toList "10S".toList
      (bobLine.found (withoutClear.under (some vdefaultLimits))) _ rfl rfl (by decide)
      (fresh_ofEntries exampleCom.pwline (by decide)) fits (by decide) (by decide) (by decide +kernel)
      (by decide +kernel) found
    exact absurd (congrArg Vqpasswd.pwClearPasswd same) (by decide)
  · intro alone
    have found : authGetpw (exampleCom.under (some vdefaultLimits))
        (Vpopmaild.filesWith "bob:x:1:0:Bob:/domains/example.com/bob:1\n:secret\n") "bob".toList =
          .ok (some { bobLine.found (exampleCom.under (some vdefaultLimits)) with
            pwShell := "1".toList, pwClearPasswd := some [] }) := by decide +kernel
    have same := alone (.ofEntries [bobLine]) _ [bobLine] exampleCom
      (some vdefaultLimits) "bob".toList "1\n".toList
      (bobLine.found (exampleCom.under (some vdefaultLimits))) _ rfl rfl (by decide)
      (fresh_ofEntries exampleCom.pwline (by decide)) splits (by decide) (by decide) (by decide +kernel)
      (by decide +kernel) found
    exact absurd (congrArg Vqpasswd.pwClearPasswd same) (by decide)

end Vpopmail.Vcdb

import Vpopmail.Vcdb.Lookup

/-! # Rewriting `vpasswd`

What the copying loops of `auth_setpw`, `auth_deluser` and `auth_adduser` make
of a file whose lines all fit their buffers.
-/

namespace Vpopmail.Vcdb

open Vpopmail Text Vpopmail.Stream Buffer

variable {entries : List Entry}

theorem copyReplacing_lines (name line : List Char)
    (named : ∀ entry ∈ entries, entry.name ≠ []) :
    copyReplacing name line (entries.map Entry.line) =
      .ok (entries.map fun entry => if name = entry.name then line else entry.line).flatten := by
  induction entries with
  | nil => rfl
  | cons entry entries induction =>
      rcases List.forall_mem_cons.mp named with ⟨first, others⟩
      rw [List.map_cons, copyReplacing, lineName_colonNewline first]
      simp only [Except.bind, induction others, cstring_of_free entry.line_free_nul]
      by_cases equal : name = entry.name <;> simp [equal]

theorem copyWithout_lines (user : List Char) (named : ∀ entry ∈ entries, entry.name ≠ []) :
    copyWithout user (entries.map Entry.line) =
      .ok (vpasswdText (entries.filter fun entry => user ≠ entry.name)) := by
  induction entries with
  | nil => rfl
  | cons entry entries induction =>
      rcases List.forall_mem_cons.mp named with ⟨first, others⟩
      rw [List.map_cons, copyWithout, lineName_colon first]
      simp only [Except.bind, induction others, cstring_of_free entry.line_free_nul]
      by_cases equal : user = entry.name <;> simp [equal, vpasswdText]

/-- The lines in front of which no greater name stands. -/
def notGreater (user : List Char) (entry : Entry) : Bool := !decide (user < entry.name)

theorem copyInserting_added (user line : List Char)
    (named : ∀ entry ∈ entries, entry.name ≠ []) :
    copyInserting user line true (entries.map Entry.line) = .ok (vpasswdText entries) := by
  induction entries with
  | nil => rfl
  | cons entry entries induction =>
      rcases List.forall_mem_cons.mp named with ⟨first, others⟩
      rw [List.map_cons, copyInserting, lineName_colon first]
      simp only [Except.bind, Bool.not_true, Bool.false_and, Bool.or_false,
        induction others, cstring_of_free entry.line_free_nul, Bool.false_eq_true, if_false]
      rfl

theorem copyInserting_lines (user line : List Char)
    (named : ∀ entry ∈ entries, entry.name ≠ []) :
    copyInserting user line false (entries.map Entry.line) =
      .ok (vpasswdText (entries.takeWhile (notGreater user)) ++ line ++
        vpasswdText (entries.dropWhile (notGreater user))) := by
  induction entries with
  | nil => simp [copyInserting, vpasswdText]
  | cons entry entries induction =>
      rcases List.forall_mem_cons.mp named with ⟨first, others⟩
      rw [List.map_cons, copyInserting, lineName_colon first]
      simp only [Except.bind, Bool.not_false, Bool.true_and, Bool.false_or,
        cstring_of_free entry.line_free_nul]
      by_cases greater : user < entry.name
      · simp [greater, notGreater, copyInserting_added user line others, vpasswdText]
      · simp [greater, notGreater, induction others, vpasswdText]

/-! ## Entries of the new file -/

/-- The entries with those of one name replaced. -/
def replaceEntry (replacement : Entry) (entries : List Entry) : List Entry :=
  entries.map fun entry => if replacement.name = entry.name then replacement else entry

theorem vpasswdText_replaceEntry (replacement : Entry) (entries : List Entry) :
    (entries.map fun entry =>
      if replacement.name = entry.name then replacement.line else entry.line).flatten =
        vpasswdText (replaceEntry replacement entries) := by
  rw [vpasswdText, replaceEntry, List.map_map]
  congr 1
  apply List.map_congr_left
  intro entry _
  rw [Function.comp_apply, apply_ite Entry.line]

theorem forall_replaceEntry {property : Entry → Prop} {replacement : Entry}
    (new : property replacement) (old : ∀ entry ∈ entries, property entry) :
    ∀ entry ∈ replaceEntry replacement entries, property entry := by
  intro entry member
  rcases List.mem_map.mp member with ⟨before, beforeMember, rfl⟩
  split
  · exact new
  · exact old before beforeMember

theorem find_replaceEntry {replacement : Entry}
    (known : ∃ entry ∈ entries, replacement.name = entry.name) :
    (replaceEntry replacement entries).find? (fun entry => entry.name = replacement.name) =
      some replacement := by
  induction entries with
  | nil => simp at known
  | cons entry entries induction =>
      by_cases equal : replacement.name = entry.name
      · simp [replaceEntry, equal]
      · have later : ∃ other ∈ entries, replacement.name = other.name := by
          rcases known with ⟨other, member, same⟩
          rcases List.mem_cons.mp member with rfl | member
          · exact absurd same equal
          · exact ⟨other, member, same⟩
        rw [replaceEntry, List.map_cons, if_neg equal,
          List.find?_cons_of_neg (by simpa using Ne.symm equal)]
        exact induction later

/-- A line that was set is found again. -/
theorem authGetpw_replaced {site : Site} (reads : site.Reads) {replacement : Entry}
    (known : ∃ entry ∈ entries, replacement.name = entry.name)
    (lower : lowerit replacement.name = replacement.name) :
    authGetpw site (.ofEntries (replaceEntry replacement entries)) replacement.name =
      .ok (some (replacement.found site)) := by
  rw [authGetpw_eq reads rfl, lower, find_replaceEntry known]
  rfl

/-! ## Calls -/

theorem VaCode.number_eq_zero_iff (code : VaCode) : code.number = 0 ↔ code = .success := by
  cases code <;> simp [VaCode.number]

/-- What a fitting call installs. -/
theorem install_eq_ok {files after : Files} {site : Site} {vpasswd : List Char}
    (installed : files.install site vpasswd = .ok after) :
    after.vpasswd = vpasswd ∧
      ((site.noMakeIndex = true ∧ after.cdb = files.cdb) ∨
        (site.noMakeIndex = false ∧
          ∃ index, makeVpasswdCdb site.pwline vpasswd = .ok index ∧
            after.cdb = some index)) := by
  rw [Files.install] at installed
  cases makes : site.noMakeIndex with
  | true =>
      rw [makes, if_pos rfl] at installed
      cases installed
      exact ⟨rfl, .inl ⟨rfl, rfl⟩⟩
  | false =>
      rw [makes, if_neg Bool.false_ne_true] at installed
      cases made : makeVpasswdCdb site.pwline vpasswd with
      | error fault =>
          rw [made] at installed
          cases installed
      | ok index =>
          rw [made] at installed
          cases installed
          exact ⟨rfl, .inr ⟨rfl, index, rfl, rfl⟩⟩

theorem install_of_fits {site : Site} (files : Files)
    (fits : site.noMakeIndex = false → ∀ entry ∈ entries, entry.line.length < pwlineSize) :
    ∃ after, files.install site (vpasswdText entries) = .ok after := by
  rw [Files.install]
  cases makes : site.noMakeIndex with
  | true => exact ⟨_, rfl⟩
  | false =>
      rw [makeVpasswdCdb_vpasswdText site.pwline (fits makes)]
      exact ⟨_, rfl⟩

theorem stripClear_of_plain {build : Build} {clear : Option (List Char)}
    (given : clear.isNone = false)
    (plain : build.clearPass = false → ∀ text ∈ clear, Free ':' text ∧ Free nul text) :
    stripClear build clear = .ok () := by
  cases kept : build.clearPass with
  | true => simp only [stripClear, kept, if_true]
  | false =>
      cases clear with
      | none => cases given
      | some text =>
          have both := plain kept text rfl
          simp only [stripClear, kept, Bool.false_eq_true, if_false,
            vcdbStripChar_of_free both.1 both.2]
          rfl

/-- An accepted record replaces the line of its user, unless a string is left. -/
theorem authSetpw_of_accepted {site : Site} {files : Files} {inpw : Vqpasswd}
    (gecosFree : Free nul inpw.pwGecos) (text : files.vpasswd = vpasswdText entries)
    (fit : ∀ entry ∈ entries, entry.line.length < maxBuff)
    (named : ∀ entry ∈ entries, entry.name ≠ [])
    (accepted : vcheckVqpw site.build inpw site.domain = .success)
    (owned : site.owns ((site.assign.map (·.2)).getD 0) = true)
    (opened : site.filesOpen = true) :
    authSetpw site files inpw =
      if (squeeze inpw.pwGecos).2 then .error .outOfBounds
      else (stripClear site.build inpw.pwClearPasswd).bind fun _ =>
        (files.install site (entries.map fun entry =>
          if inpw.pwName = entry.name then
            vpasswdLine site.build { inpw with pwGecos := stripValue inpw.pwGecos }
          else entry.line).flatten).map fun after => (0, after) := by
  simp only [authSetpw, accepted, owned, opened, ne_eq, not_true_eq_false, Bool.not_true,
    Bool.false_eq_true, if_false, vcdbStripChar_eq gecosFree, text, fgetsLoop_vpasswdText fit,
    copyReplacing_lines _ _ named]
  split <;> rfl

/-- A call that reports an error has changed nothing, and a successful
`auth_setpw` has accepted the record and replaced its line. -/
theorem authSetpw_cases {site : Site} {files after : Files} {inpw : Vqpasswd} {ret : Int}
    (gecosFree : Free nul inpw.pwGecos) (text : files.vpasswd = vpasswdText entries)
    (fit : ∀ entry ∈ entries, entry.line.length < maxBuff)
    (named : ∀ entry ∈ entries, entry.name ≠ [])
    (set : authSetpw site files inpw = .ok (ret, after)) :
    (ret ≠ 0 ∧ after = files) ∨
      (ret = 0 ∧ vcheckVqpw site.build inpw site.domain = .success ∧
        files.install site (entries.map fun entry =>
          if inpw.pwName = entry.name then
            vpasswdLine site.build { inpw with pwGecos := stripValue inpw.pwGecos }
          else entry.line).flatten = .ok after) := by
  by_cases accepted : vcheckVqpw site.build inpw site.domain = .success
  · cases owned : site.owns ((site.assign.map (·.2)).getD 0) with
    | false =>
        simp only [authSetpw, accepted, owned, ne_eq, not_true_eq_false, if_false, Bool.not_false,
          if_true] at set
        cases set
        exact .inl ⟨by decide, rfl⟩
    | true =>
        cases opened : site.filesOpen with
        | false =>
            simp only [authSetpw, accepted, owned, opened, ne_eq, not_true_eq_false, if_false,
              Bool.not_true, Bool.false_eq_true, Bool.not_false, if_true] at set
            cases set
            exact .inl ⟨by decide, rfl⟩
        | true =>
            rw [authSetpw_of_accepted gecosFree text fit named accepted owned opened] at set
            split at set
            · cases set
            · cases cleared : stripClear site.build inpw.pwClearPasswd with
              | error fault =>
                  rw [cleared] at set
                  cases set
              | ok done =>
                  rw [cleared] at set
                  simp only [Except.bind] at set
                  rcases map_eq_ok set with ⟨installed, made, same⟩
                  cases same
                  exact .inr ⟨rfl, accepted, made⟩
  · rw [authSetpw, if_pos accepted] at set
    cases set
    exact .inl ⟨fun zero => accepted ((VaCode.number_eq_zero_iff _).mp zero), rfl⟩

/-- `auth_setpw` for a comment and a clear password without delimiters, where stripping changes
nothing. -/
theorem authSetpw_of_plain {site : Site} {files : Files} {inpw : Vqpasswd}
    (gecosPlain : Plain inpw.pwGecos) (given : inpw.pwClearPasswd.isNone = false)
    (clearPlain : ∀ clear ∈ inpw.pwClearPasswd, Plain clear)
    (text : files.vpasswd = vpasswdText entries)
    (fit : ∀ entry ∈ entries, entry.line.length < maxBuff)
    (named : ∀ entry ∈ entries, entry.name ≠ []) :
    authSetpw site files inpw =
      if vcheckVqpw site.build inpw site.domain ≠ .success then
        .ok ((vcheckVqpw site.build inpw site.domain).number, files)
      else if !site.owns ((site.assign.map (·.2)).getD 0) then .ok (VaCode.badUid.number, files)
      else if !site.filesOpen then .ok (-1, files)
      else (files.install site (entries.map fun entry =>
        if inpw.pwName = entry.name then vpasswdLine site.build inpw
        else entry.line).flatten).map fun after => (0, after) := by
  have cleared : stripClear site.build inpw.pwClearPasswd = .ok () :=
    stripClear_of_plain given fun _ clear member =>
      ⟨(clearPlain clear member).1, (clearPlain clear member).2.2⟩
  simp only [authSetpw, vcdbStripChar_of_free gecosPlain.1 gecosPlain.2.2, cleared, Except.bind,
    text, fgetsLoop_vpasswdText fit, copyReplacing_lines _ _ named]

theorem authDeluser_eq {site : Site} {files : Files} (user : List Char)
    (text : files.vpasswd = vpasswdText entries)
    (fit : ∀ entry ∈ entries, entry.line.length < maxBuff)
    (named : ∀ entry ∈ entries, entry.name ≠ []) :
    authDeluser site files user =
      if !site.filesOpen then .ok (-1, files)
      else (files.install site
        (vpasswdText (entries.filter fun entry => user ≠ entry.name))).map fun after =>
          (0, after) := by
  simp only [authDeluser, text, fgetsLoop_vpasswdText fit, copyWithout_lines _ named, Except.bind]

/-- `auth_adduser` for a name and a comment without delimiters, where stripping
changes nothing. -/
theorem authAdduser_of_plain {site : Site} {crypt : List Char → List Char}
    {files : Files} {user pass gecos dir : List Char} {usePop : Bool}
    (userPlain : Plain user) (gecosPlain : Plain gecos)
    (text : files.vpasswd = vpasswdText entries)
    (fit : ∀ entry ∈ entries, entry.line.length < maxBuff)
    (named : ∀ entry ∈ entries, entry.name ≠ []) :
    authAdduser site crypt files user pass gecos dir usePop =
      if user = "vpasswd".toList then .ok (VaCode.illegalUsername.number, files)
      else if !site.filesOpen then .ok (-1, files)
      else (files.install site
        (vpasswdText (entries.takeWhile (notGreater user)) ++
          authAdduserLine site crypt user pass (if gecos = [] then user else gecos) dir usePop ++
          vpasswdText (entries.dropWhile (notGreater user)))).map fun after => (0, after) := by
  have plain : Plain (if gecos = [] then user else gecos) := by
    split
    · exact userPlain
    · exact gecosPlain
  have same : (if gecos = [] then (if gecos = [] then user else gecos) else user) = user := by
    split <;> rfl
  simp only [authAdduser, vcdbStripChar_of_free plain.1 plain.2.2, Except.bind, same, text,
    fgetsLoop_vpasswdText fit, copyInserting_lines _ _ named]

end Vpopmail.Vcdb

import Vpopmail.Vcdb.Rewriting

/-! # Setting a record and reading it back

After `auth_setpw` the record is read from the index made of the new file. Every
field comes back but the comment, which `vcdb_strip_char` may spoil or leave; a
delimiter left in it shifts the fields behind it.
-/

namespace Vpopmail.Vcdb

open Vpopmail Text Vpopmail.Stream Buffer

/-- A call of `auth_setpw` that meets no error, for a user of a well-formed file. Only the
comment may hold a delimiter, or a clear password that is printed last. -/
structure SetCall where
  site : Site
  entries : List Entry
  cdb : Option Index
  inpw : Vqpasswd
  reads : site.Reads
  opened : site.filesOpen = true
  accepted : vcheckVqpw site.build inpw site.domain = .success
  named : ∀ entry ∈ entries, entry.name ≠ []
  fit : ∀ entry ∈ entries, entry.line.length < pwlineSize
  known : ∃ entry ∈ entries, inpw.pwName = entry.name
  plain : PlainRecord site.build { inpw with pwGecos := [] }
  clearPlain : site.build.clearPass = false →
    ∀ clear ∈ inpw.pwClearPasswd, Free ':' clear ∧ Free nul clear
  gecosNewline : Free '\n' inpw.pwGecos
  gecosNul : Free nul inpw.pwGecos
  short : (vpasswdLine site.build inpw).length < pwlineSize

namespace SetCall

variable (call : SetCall)

/-- `auth_getpw` returns the record that was set, without the colons of its
comment. -/
structure Returned (pw : Vqpasswd) : Prop where
  name : pw.pwName = call.inpw.pwName
  passwd : pw.pwPasswd = call.inpw.pwPasswd
  uid : pw.pwUid = call.inpw.pwUid
  gid : pw.pwGid = call.inpw.pwGid
  dir : pw.pwDir = call.inpw.pwDir
  shell : pw.pwShell = call.inpw.pwShell
  clear : call.site.build.clearPass = true → pw.pwClearPasswd = call.inpw.pwClearPasswd
  gecos : pw.pwGecos = withoutColons call.inpw.pwGecos

/-- The call returns 0, and the record comes back. -/
def RoundTrips : Prop :=
  ∃ after pw,
    authSetpw call.site ⟨vpasswdText call.entries, call.cdb⟩ call.inpw = .ok (0, after) ∧
    authGetpw call.site after call.inpw.pwName = .ok (some pw) ∧ call.Returned pw

/-- The name is one that `auth_getpw` does not change, there is a clear password, and the call
makes the index. -/
structure Findable : Prop where
  lower : lowerit call.inpw.pwName = call.inpw.pwName
  given : call.inpw.pwClearPasswd ≠ none
  indexed : call.site.noMakeIndex = false

/-- The record that is printed. -/
def stripped : Vqpasswd := { call.inpw with pwGecos := stripValue call.inpw.pwGecos }

theorem stripped_short :
    (vpasswdLine call.site.build call.stripped).length < pwlineSize := by
  have whole := call.short
  have comment := length_stripValue call.inpw.pwGecos
  simp only [vpasswdLine, stripped, List.length_append, List.length_cons] at whole ⊢
  omega

theorem set_eq : authSetpw call.site ⟨vpasswdText call.entries, call.cdb⟩ call.inpw =
    if (squeeze call.inpw.pwGecos).2 then .error .outOfBounds
    else (stripClear call.site.build call.inpw.pwClearPasswd).bind fun _ =>
      (Files.install ⟨vpasswdText call.entries, call.cdb⟩ call.site
        (call.entries.map fun entry =>
          if call.inpw.pwName = entry.name then vpasswdLine call.site.build call.stripped
          else entry.line).flatten).map fun after => (0, after) := by
  rcases call.reads with ⟨dir, uid, assigned, owned⟩
  have owner : call.site.owns ((call.site.assign.map (·.2)).getD 0) = true := by
    rw [assigned]
    exact owned
  exact authSetpw_of_accepted call.gecosNul rfl
    (fun entry member => Nat.lt_trans (call.fit entry member) (by decide)) call.named
    call.accepted owner call.opened

theorem exists_clear (clearPass : call.site.build.clearPass = true) :
    ∃ clear, call.inpw.pwClearPasswd = some clear := by
  cases given : call.inpw.pwClearPasswd with
  | some clear => exact ⟨clear, rfl⟩
  | none =>
      have accepted := call.accepted
      simp [vcheckVqpw, clearPass, given] at accepted

/-- A string that the stripping leaves, or a null pointer, ends the call. -/
theorem stays_of_roundTrips (trip : call.RoundTrips) :
    (squeeze call.inpw.pwGecos).2 = false ∧ call.inpw.pwClearPasswd ≠ none := by
  rcases trip with ⟨after, pw, set, _⟩
  rw [call.set_eq] at set
  split at set
  · cases set
  · next stays =>
      refine ⟨Bool.eq_false_iff.mpr stays, ?_⟩
      intro absent
      cases clearPass : call.site.build.clearPass with
      | true =>
          rcases call.exists_clear clearPass with ⟨clear, given⟩
          rw [absent] at given
          cases given
      | false =>
          simp only [absent, stripClear, clearPass, Bool.false_eq_true, if_false] at set
          cases set

/-- The name of a record that is found. -/
theorem lower_of_roundTrips (trip : call.RoundTrips) :
    lowerit call.inpw.pwName = call.inpw.pwName := by
  rcases trip with ⟨after, pw, _, found, returned⟩
  rw [← authGetpw_name (free_lowerit (by decide) call.plain.name.1) found, returned.name]

/-- The entry in the new file determines what `auth_getpw` returns. -/
theorem roundTrips_iff_returned (findable : call.Findable)
    (stays : (squeeze call.inpw.pwGecos).2 = false) {replacement : Entry}
    (sameName : replacement.name = call.inpw.pwName)
    (sameLine : replacement.line = vpasswdLine call.site.build call.stripped) :
    call.RoundTrips ↔ call.Returned (replacement.found call.site) := by
  have fit : ∀ entry ∈ replaceEntry replacement call.entries,
      entry.line.length < pwlineSize := by
    apply forall_replaceEntry ?_ call.fit
    rw [sameLine]
    exact call.stripped_short
  have cleared : stripClear call.site.build call.inpw.pwClearPasswd = .ok () :=
    stripClear_of_plain (by simpa [Option.isSome_iff_ne_none] using findable.given) call.clearPlain
  have set : authSetpw call.site ⟨vpasswdText call.entries, call.cdb⟩ call.inpw =
      .ok (0, .ofEntries (replaceEntry replacement call.entries)) := by
    rw [call.set_eq, stays, if_neg Bool.false_ne_true, cleared, ← sameName, ← sameLine,
      vpasswdText_replaceEntry]
    simp only [Except.bind, (install_eq_ok_iff findable.indexed _ _ _).mpr ⟨fit, rfl⟩]
    rfl
  have found : authGetpw call.site (.ofEntries (replaceEntry replacement call.entries))
      call.inpw.pwName = .ok (some (replacement.found call.site)) := by
    have again := authGetpw_replaced call.reads (sameName ▸ call.known)
      (sameName ▸ findable.lower)
    rwa [sameName] at again
  rw [RoundTrips, set]
  constructor
  · rintro ⟨after, pw, ⟨⟩, same, returned⟩
    rw [found] at same
    cases same
    exact returned
  · intro returned
    exact ⟨_, _, rfl, found, returned⟩

/-! ## A comment without delimiters -/

theorem plain_stripped (colonFree : Free ':' (stripValue call.inpw.pwGecos)) :
    PlainRecord call.site.build call.stripped where
  name := call.plain.name
  passwd := call.plain.passwd
  gecos := ⟨colonFree, free_stripValue call.gecosNewline, free_stripValue call.gecosNul⟩
  dir := call.plain.dir
  shell := call.plain.shell
  clear := call.plain.clear

/-- Without a delimiter in the printed comment every other field comes back. -/
theorem roundTrips_iff_of_free (findable : call.Findable)
    (stays : (squeeze call.inpw.pwGecos).2 = false)
    (colonFree : Free ':' (stripValue call.inpw.pwGecos)) :
    call.RoundTrips ↔
      stripValue call.inpw.pwGecos = withoutColons call.inpw.pwGecos := by
  have plain := call.plain_stripped colonFree
  have sameName : (printed plain).name = call.inpw.pwName := rfl
  rw [call.roundTrips_iff_returned findable stays sameName (vpasswdLine_eq_line plain).symm,
    Entry.found, record_printed]
  constructor
  · intro returned
    exact returned.gecos
  · intro same
    refine ⟨rfl, rfl, rfl, rfl, rfl, rfl, ?_, same⟩
    intro clearPass
    rcases call.exists_clear clearPass with ⟨clear, given⟩
    simp [vlimitsSetflags, printed, clearPass, stripped, given]

/-! ## A delimiter left in the comment -/

/-- The first field of a text that goes on behind a delimiter. -/
theorem exists_first_field (text rest : List Char) :
    ∃ field more, Free ':' field ∧ field.length ≤ text.length ∧
      text ++ ':' :: rest = field ++ ':' :: more ∧
      (more = rest ∨ ∃ left, more = left ++ ':' :: rest) := by
  rcases free_or_eq_append_cons ':' text with free | ⟨field, left, free, rfl⟩
  · exact ⟨text, rest, free, Nat.le_refl _, rfl, .inl rfl⟩
  · exact ⟨field, left ++ ':' :: rest, free, by simp, by simp, .inr ⟨left, rfl⟩⟩

/-- The two fields behind a text that still holds what `left` was. -/
theorem exists_two_fields (left dir behind : List Char) :
    ∃ first second more, Free ':' first ∧ Free ':' second ∧ first.length ≤ left.length ∧
      left ++ ':' :: (dir ++ ':' :: behind) = first ++ ':' :: (second ++ ':' :: more) := by
  rcases exists_first_field left (dir ++ ':' :: behind) with
    ⟨first, more, firstFree, short, whole, goesOn⟩
  have rest : ∃ text, more = text ++ ':' :: behind := by
    rcases goesOn with equal | ⟨text, equal⟩
    · exact ⟨dir, equal⟩
    · exact ⟨text ++ ':' :: dir, by simp [equal]⟩
  rcases rest with ⟨text, rfl⟩
  rcases exists_first_field text behind with ⟨second, others, secondFree, _, split, _⟩
  exact ⟨first, second, others, firstFree, secondFree, short, by rw [whole, split]⟩

/-- The part of the printed line behind the comment. -/
def behindComment : List Char :=
  call.inpw.pwDir ++ ':' :: (call.inpw.pwShell ++
    if call.site.build.clearPass then ':' :: call.inpw.pwClearPasswd.getD [] else [])

theorem free_behindComment {char : Char} (notColon : char ≠ ':')
    (free : ∀ field, Plain field → Free char field)
    (clearFree : call.site.build.clearPass = true →
      Free char (call.inpw.pwClearPasswd.getD [])) : Free char call.behindComment := by
  simp only [behindComment, free_append, free_cons]
  refine ⟨free _ call.plain.dir, notColon, free _ call.plain.shell, ?_⟩
  split
  · rename_i clearPass
    exact free_cons.mpr ⟨notColon, clearFree clearPass⟩
  · exact free_nil char

/-- The fields behind the comment are shifted by what is left of it. -/
theorem exists_shifted {comment left : List Char} (commentFree : Free ':' comment)
    (split : stripValue call.inpw.pwGecos = comment ++ ':' :: left) :
    ∃ replacement : Entry, replacement.name = call.inpw.pwName ∧
      replacement.line = vpasswdLine call.site.build call.stripped ∧
      replacement.dir.length ≤ left.length ∧
      ∃ more, replacement.clear = some more ∧ left ++ ':' :: call.behindComment =
        replacement.dir ++ ':' :: (replacement.shell ++ ':' :: more) := by
  have commentNewline := free_stripValue call.gecosNewline
  have commentNul := free_stripValue call.gecosNul
  rw [split, free_append, free_cons] at commentNewline commentNul
  have behindNewline : Free '\n' call.behindComment :=
    call.free_behindComment (by decide) (fun _ plain => plain.2.1)
      fun clearPass => (call.plain.clear clearPass).1
  have behindNul : Free nul call.behindComment :=
    call.free_behindComment (by decide) (fun _ plain => plain.2.2)
      fun clearPass => (call.plain.clear clearPass).2
  rcases exists_two_fields left call.inpw.pwDir (call.inpw.pwShell ++
    if call.site.build.clearPass then ':' :: call.inpw.pwClearPasswd.getD [] else []) with
    ⟨first, second, more, firstFree, secondFree, short, whole⟩
  have wholeNewline : Free '\n' (first ++ ':' :: (second ++ ':' :: more)) := by
    rw [← whole, free_append, free_cons]
    exact ⟨commentNewline.2.2, by decide, behindNewline⟩
  have wholeNul : Free nul (first ++ ':' :: (second ++ ':' :: more)) := by
    rw [← whole, free_append, free_cons]
    exact ⟨commentNul.2.2, by decide, behindNul⟩
  simp only [free_append, free_cons] at wholeNewline wholeNul
  let replacement : Entry :=
    { name := call.inpw.pwName
      passwd := call.inpw.pwPasswd
      uid := Decimal.spellInt call.inpw.pwUid.toInt
      gid := Decimal.spellInt call.inpw.pwGid.toInt
      gecos := comment
      dir := first
      shell := second
      clear := some more
      plain := by
        intro field member
        simp only [List.mem_cons, List.not_mem_nil, or_false] at member
        rcases member with rfl | rfl | rfl | rfl | rfl | rfl | rfl
        exacts [call.plain.name, call.plain.passwd, plain_spellInt _, plain_spellInt _,
          ⟨commentFree, commentNewline.1, commentNul.1⟩,
          ⟨firstFree, wholeNewline.1, wholeNul.1⟩,
          ⟨secondFree, wholeNewline.2.2.1, wholeNul.2.2.1⟩]
      clearFree := by
        intro text given
        cases given
        exact ⟨wholeNewline.2.2.2.2, wholeNul.2.2.2.2⟩ }
  refine ⟨replacement, rfl, ?_, short, more, rfl, whole⟩
  have spelled : vpasswdLine call.site.build call.stripped =
      call.inpw.pwName ++ ':' :: (call.inpw.pwPasswd ++
        ':' :: (Decimal.spellInt call.inpw.pwUid.toInt ++
        ':' :: (Decimal.spellInt call.inpw.pwGid.toInt ++
        ':' :: (comment ++ ':' :: (left ++ ':' :: call.behindComment ++ ['\n']))))) := by
    simp [vpasswdLine, stripped, split, behindComment]
  rw [spelled, behindComment, whole]
  simp [Entry.line, Entry.data, clearTail, replacement]

/-- A delimiter left in the comment spoils a field behind it, unless the build
prints no clear password and the directory is shorter than the comment. -/
theorem not_roundTrips_of_shifted (indexed : call.site.noMakeIndex = false)
    {comment left : List Char} (commentFree : Free ':' comment)
    (split : stripValue call.inpw.pwGecos = comment ++ ':' :: left)
    (compared : call.site.build.clearPass = true ∨
      call.inpw.pwGecos.length ≤ call.inpw.pwDir.length) : ¬call.RoundTrips := by
  intro trip
  rcases call.exists_shifted commentFree split with
    ⟨replacement, sameName, sameLine, short, more, given, whole⟩
  have stays := call.stays_of_roundTrips trip
  rw [call.roundTrips_iff_returned ⟨call.lower_of_roundTrips trip, stays.2, indexed⟩ stays.1
    sameName sameLine] at trip
  have dir : replacement.dir = call.inpw.pwDir := trip.dir
  have shell : replacement.shell = call.inpw.pwShell := trip.shell
  rcases compared with clearPass | longer
  · have clear : some (replacement.clear.getD []) = call.inpw.pwClearPasswd :=
      trip.clear clearPass
    have lengths := congrArg List.length whole
    rw [dir, shell, behindComment, if_pos clearPass, ← clear, given] at lengths
    simp only [Option.getD_some, List.length_append, List.length_cons] at lengths
    omega
  · have stripped := length_stripValue call.inpw.pwGecos
    rw [split, List.length_append, List.length_cons] at stripped
    rw [dir] at short
    omega

theorem roundTrips_of_free (findable : call.Findable) (free : Free ':' call.inpw.pwGecos) :
    call.RoundTrips := by
  have stays : (squeeze call.inpw.pwGecos).2 = false := by rw [squeeze_of_free free]
  have colonFree : Free ':' (stripValue call.inpw.pwGecos) := by
    rw [stripValue_of_free free]
    exact free
  exact (call.roundTrips_iff_of_free findable stays colonFree).mpr
    ((stripValue_eq_withoutColons_iff _).mpr free)

theorem free_of_roundTrips (indexed : call.site.noMakeIndex = false)
    (compared : call.site.build.clearPass = true ∨
      call.inpw.pwGecos.length ≤ call.inpw.pwDir.length) (trip : call.RoundTrips) :
    call.Findable ∧ Free ':' call.inpw.pwGecos := by
  have stays := call.stays_of_roundTrips trip
  have findable : call.Findable := ⟨call.lower_of_roundTrips trip, stays.2, indexed⟩
  refine ⟨findable, ?_⟩
  rw [← stripValue_eq_withoutColons_iff]
  rcases free_or_eq_append_cons ':' (stripValue call.inpw.pwGecos) with
    colonFree | ⟨comment, left, commentFree, split⟩
  · exact (call.roundTrips_iff_of_free findable stays.1 colonFree).mp trip
  · exact absurd trip (call.not_roundTrips_of_shifted indexed commentFree split compared)

end SetCall

/-! ## Round trips of a comment -/

def bobRecord (gecos : List Char) : Vqpasswd where
  pwName := "bob".toList
  pwPasswd := "x".toList
  pwUid := 1
  pwGid := 0
  pwFlags := 0
  pwGecos := gecos
  pwDir := "/domains/example.com/bob".toList
  pwShell := "NOQUOTA".toList
  pwClearPasswd := some "secret".toList

theorem plainRecord_bob : PlainRecord exampleCom.build (bobRecord []) :=
  ⟨by decide, by decide, by decide, by decide, by decide, by decide⟩

theorem vcheckVqpw_bobRecord {gecos : List Char} (short : gecos.length ≤ maxPwGecos) :
    vcheckVqpw exampleCom.build (bobRecord gecos) exampleCom.domain = .success := by
  have blank : vcheckVqpw exampleCom.build (bobRecord []) exampleCom.domain = .success := rfl
  rw [vcheckVqpw_eq_success_iff] at blank ⊢
  exact ⟨blank.clearGiven, blank.name, blank.nameOfDir, blank.domain, blank.passwd, short,
    blank.dir, blank.shell, blank.clear⟩

theorem length_vpasswdLine_bobRecord (gecos : List Char) :
    (vpasswdLine exampleCom.build (bobRecord gecos)).length =
      (vpasswdLine exampleCom.build (bobRecord [])).length + gecos.length := by
  simp only [vpasswdLine, bobRecord, List.length_append, List.length_cons, List.length_nil]
  omega

/-- Setting any admitted comment of `bob` in a file that holds his line. -/
def setBob (gecos : List Char) (short : gecos.length ≤ maxPwGecos)
    (newline : Free '\n' gecos) (ended : Free nul gecos) : SetCall where
  site := exampleCom
  entries := [bobLine]
  cdb := none
  inpw := bobRecord gecos
  reads := exampleCom_reads
  opened := rfl
  accepted := vcheckVqpw_bobRecord short
  named := by decide
  fit := by decide
  known := ⟨bobLine, List.mem_singleton_self bobLine, rfl⟩
  plain := plainRecord_bob
  clearPlain := by
    intro absent
    cases absent
  gecosNewline := newline
  gecosNul := ended
  short := by
    have bound : gecos.length ≤ 48 := short
    have others : (vpasswdLine exampleCom.build (bobRecord [])).length < 100 := by decide
    have size : pwlineSize = 256 := rfl
    rw [length_vpasswdLine_bobRecord]
    omega

theorem setBob_findable {gecos : List Char} (short : gecos.length ≤ maxPwGecos)
    (newline : Free '\n' gecos) (ended : Free nul gecos) :
    (setBob gecos short newline ended).Findable := by
  constructor
  · rfl
  · intro absent
    cases absent
  · exact exampleCom_makesIndex

/-- Every round trip of a comment, for a name in lower case, with a clear password and an index
made, succeeds exactly when it has no colon. Single round trips tell the same, wherever the index
is made and the clear password is compared or the directory is long enough. -/
theorem roundTrips_iff_free (gecos : List Char) (short : gecos.length ≤ maxPwGecos)
    (newline : Free '\n' gecos) (ended : Free nul gecos) :
    ((∀ call : SetCall, call.inpw.pwGecos = gecos → call.Findable → call.RoundTrips) ↔
        Free ':' gecos) ∧
      ∀ call : SetCall, call.inpw.pwGecos = gecos → call.site.noMakeIndex = false →
        (call.site.build.clearPass = true ∨ gecos.length ≤ call.inpw.pwDir.length) →
          (call.RoundTrips ↔ call.Findable ∧ Free ':' gecos) := by
  refine ⟨⟨?_, ?_⟩, ?_⟩
  · intro trips
    exact ((setBob gecos short newline ended).free_of_roundTrips exampleCom_makesIndex (.inl rfl)
      (trips (setBob gecos short newline ended) rfl (setBob_findable short newline ended))).2
  · intro free call same findable
    exact call.roundTrips_of_free findable (same ▸ free)
  · intro call same indexed compared
    subst same
    constructor
    · exact call.free_of_roundTrips indexed compared
    · exact fun both => call.roundTrips_of_free both.1 both.2

/-- The comment of `bob` is changed to one with a blank. -/
theorem roundTrips_bobSmith :
    (setBob "Bob Smith".toList (by decide) (by decide) (by decide)).RoundTrips ∧
      ∀ call : SetCall, call.inpw.pwGecos = "Bob Smith".toList → call.Findable →
        call.RoundTrips := by
  have both := roundTrips_iff_free "Bob Smith".toList (by decide) (by decide) (by decide)
  have all := both.1.mpr (by decide)
  exact ⟨all _ rfl (setBob_findable (by decide) (by decide) (by decide)), all⟩

/-- The files after a call for `bob`. -/
def setBobFiles (gecos : List Char) : Checked Files :=
  (authSetpw exampleCom ⟨vpasswdText [bobLine], none⟩ (bobRecord gecos)).map Prod.snd

/-- Setting the comment `ab:cd` leaves `abcdd`, `ab::cd` shifts the fields behind the comment,
and `Bob:` is left. -/
theorem setBob_not_roundTrips :
    ((setBobFiles "ab:cd".toList).bind fun after => authGetpw exampleCom after "bob".toList) =
        .ok (some (bobRecord "abcdd".toList)) ∧
      ((setBobFiles "ab::cd".toList).bind fun after =>
          authGetpw exampleCom after "bob".toList) =
        .ok (some { bobRecord "ab".toList with
          pwDir := "cdd".toList
          pwShell := "/domains/example.com/bob".toList
          pwClearPasswd := some "NOQUOTA:secret".toList }) ∧
      setBobFiles "Bob:".toList = .error .outOfBounds ∧
      ¬(setBob "ab:cd".toList (by decide) (by decide) (by decide)).RoundTrips := by
  have spoilt : ((setBobFiles "ab:cd".toList).bind fun after =>
      authGetpw exampleCom after "bob".toList) = .ok (some (bobRecord "abcdd".toList)) := by
    decide +kernel
  refine ⟨spoilt, by decide +kernel, by decide +kernel, ?_⟩
  rintro ⟨after, pw, set, found, returned⟩
  have same : authSetpw exampleCom ⟨vpasswdText [bobLine], none⟩ (bobRecord "ab:cd".toList) =
      .ok (0, after) := set
  rw [setBobFiles, same] at spoilt
  have answered : authGetpw exampleCom after "bob".toList = .ok (some pw) := found
  cases spoilt.symm.trans answered
  have gecos : "abcdd".toList = withoutColons "ab:cd".toList := returned.gecos
  exact absurd gecos (by decide)

end Vpopmail.Vcdb

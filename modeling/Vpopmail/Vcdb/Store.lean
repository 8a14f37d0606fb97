import Mathlib.Logic.Function.Basic
import Vpopmail.Foundation.Execution
import Vpopmail.Vcdb.Rewriting

/-! # The password store

What `vpasswd` is for: a map from the live users to their latest field values.
The calls that change the file keep it a text of that map as long as the lines
they print fit the buffers of the next call.
-/

namespace Vpopmail.Vcdb

open Vpopmail Text Execution Buffer

/-! ## The map of live users -/

abbrev Live := List Char → Option Entry

/-- One line for each live user, and nothing else. -/
def OneLineEach (vpasswd : List Char) (live : Live) : Prop :=
  ∃ entries : List Entry, vpasswd = vpasswdText entries ∧
    (entries.map Entry.name).Nodup ∧
      ∀ name entry, live name = some entry ↔ entry ∈ entries ∧ entry.name = name

/-! ## Calls -/

/-- The texts that reach a line through `auth_adduser_line`. -/
structure PlainUser (site : Site) (crypt : List Char → List Char)
    (user pass gecos dir : List Char) : Prop where
  userPlain : Plain user
  passPlain : Plain pass
  cryptPlain : Plain (crypt pass)
  gecosPlain : Plain gecos
  dirPlain : Plain dir
  basePlain : Plain ((site.assign.map (·.1)).getD site.vpopmailDirDomains)

/-- A call that changes the file, with field values free of delimiters. -/
inductive Call
  | adduser (site : Site) (crypt : List Char → List Char) (user pass gecos dir : List Char)
      (usePop : Bool) (plain : PlainUser site crypt user pass gecos dir)
  | setpw (site : Site) (inpw : Vqpasswd) (plain : PlainRecord site.build inpw)
      (clearPlain : ∀ clear ∈ inpw.pwClearPasswd, Plain clear)
  | deluser (site : Site) (user : List Char)

def Call.site : Call → Site
  | adduser site _ _ _ _ _ _ _ => site
  | setpw site _ _ _ => site
  | deluser site _ => site

def Call.run (files : Files) : Call → Checked (Int × Files)
  | adduser site crypt user pass gecos dir usePop _ =>
      authAdduser site crypt files user pass gecos dir usePop
  | setpw site inpw _ _ => authSetpw site files inpw
  | deluser site user => authDeluser site files user

theorem PlainUser.directory {site : Site} {crypt : List Char → List Char}
    {user pass gecos dir : List Char} (plain : PlainUser site crypt user pass gecos dir) :
    Plain (((site.assign.map (·.1)).getD site.vpopmailDirDomains).take 155 ++
      (if site.domain = [] then "/users".toList else []) ++
      (if dir = [] then [] else '/' :: dir) ++ '/' :: user) := by
  have slash : Plain ['/'] := by decide
  have users : Plain (if site.domain = [] then "/users".toList else []) := by
    split <;> decide
  have hash : Plain (if dir = [] then [] else '/' :: dir) := by
    split
    · decide
    · exact plain_append slash plain.dirPlain
  exact plain_append (plain_append (plain_append (plain_take plain.basePlain 155) users) hash)
    (plain_append slash plain.userPlain)

/-- The field values of a new user. -/
def added (usePop : Bool) {site : Site} {crypt : List Char → List Char}
    {user pass gecos dir : List Char} (plain : PlainUser site crypt user pass gecos dir) :
    Entry where
  name := user
  passwd := if pass = [] then [] else (crypt pass).take 99
  uid := if usePop then "1".toList else "2".toList
  gid := "0".toList
  gecos := if gecos = [] then user else gecos
  dir := ((site.assign.map (·.1)).getD site.vpopmailDirDomains).take 155 ++
    (if site.domain = [] then "/users".toList else []) ++
    (if dir = [] then [] else '/' :: dir) ++ '/' :: user
  shell := "NOQUOTA".toList
  clear := if site.build.clearPass then some pass else none
  plain := by
    have passwd : Plain (if pass = [] then [] else (crypt pass).take 99) := by
      split
      · decide
      · exact plain_take plain.cryptPlain 99
    have uid : Plain (if usePop then "1".toList else "2".toList) := by
      cases usePop <;> decide
    have gecos : Plain (if gecos = [] then user else gecos) := by
      split
      · exact plain.userPlain
      · exact plain.gecosPlain
    intro field member
    simp only [List.mem_cons, List.not_mem_nil, or_false] at member
    rcases member with rfl | rfl | rfl | rfl | rfl | rfl | rfl
    exacts [plain.userPlain, passwd, uid, by decide, gecos, plain.directory, by decide]
  clearFree := by
    intro text given
    cases clearPass : site.build.clearPass with
    | false => simp [clearPass] at given
    | true =>
        rw [if_pos clearPass, Option.mem_def, Option.some.injEq] at given
        exact given ▸ plain.passPlain.2

theorem authAdduserLine_eq_line (usePop : Bool) {site : Site}
    {crypt : List Char → List Char} {user pass gecos dir : List Char}
    (plain : PlainUser site crypt user pass gecos dir) :
    authAdduserLine site crypt user pass (if gecos = [] then user else gecos) dir usePop =
      (added usePop plain).line := by
  have pop : ":1:".toList = ':' :: ("1".toList ++ [':']) := rfl
  have apop : ":2:".toList = ':' :: ("2".toList ++ [':']) := rfl
  have gid : "0:".toList = "0".toList ++ [':'] := rfl
  have quota : ":NOQUOTA".toList = ':' :: "NOQUOTA".toList := rfl
  simp only [authAdduserLine, Entry.line, Entry.data, added, gid, quota]
  cases clearPass : site.build.clearPass <;> cases usePop <;>
    simp only [pop, apop, clearTail, Bool.false_eq_true, if_true, if_false, List.append_assoc,
      List.cons_append, List.nil_append]

/-- What a successful call means for the map. -/
def Call.effect (live : Live) : Call → Live
  | adduser _ _ user _ _ _ usePop plain =>
      Function.update live user (some (added usePop plain))
  | setpw _ inpw plain _ =>
      if live inpw.pwName = none then live
      else Function.update live inpw.pwName (some (printed plain))
  | deluser _ user => Function.update live user none

/-- The user a call is about. -/
def Call.user : Call → List Char
  | adduser _ _ user _ _ _ _ _ => user
  | setpw _ inpw _ _ => inpw.pwName
  | deluser _ user => user

/-- A call leaves the other users alone. -/
theorem Call.effect_of_ne (call : Call) {live : Live} {name : List Char}
    (other : name ≠ call.user) : call.effect live name = live name := by
  cases call with
  | adduser => exact Function.update_of_ne other _ _
  | setpw =>
      rw [effect]
      split
      · rfl
      · exact Function.update_of_ne other _ _
  | deluser => exact Function.update_of_ne other _ _

/-- A new user has a name and is not live yet, and a printed line takes at most 299 characters. -/
def Call.Printable (live : Live) : Call → Prop
  | adduser _ _ user _ _ _ usePop plain =>
      user ≠ [] ∧ live user = none ∧ (added usePop plain).line.length ≤ 299
  | setpw site inpw _ _ =>
      inpw.pwClearPasswd ≠ none ∧
        (live inpw.pwName ≠ none → (vpasswdLine site.build inpw).length ≤ 299)
  | deluser _ _ => True

/-- The calls that the buffers can take. One that makes the index leaves no line of more than
255 characters. -/
structure Call.Orderly (live : Live) (call : Call) : Prop where
  printable : call.Printable live
  indexable : call.site.noMakeIndex = false →
    ∀ name entry, call.effect live name = some entry → entry.line.length ≤ 255

/-! ## One call -/

/-- Every live user has a name, and his line fits the buffers. -/
def Fits (live : Live) : Prop :=
  ∀ name entry, live name = some entry → name ≠ [] ∧ entry.line.length < maxBuff

section Updates

variable {entries : List Entry} {live : Live}

theorem fits_entries (fits : Fits live)
    (listed : ∀ name entry, live name = some entry ↔ entry ∈ entries ∧ entry.name = name) :
    (∀ entry ∈ entries, entry.line.length < maxBuff) ∧
      ∀ entry ∈ entries, entry.name ≠ [] := by
  constructor
  · intro entry member
    exact (fits entry.name entry ((listed _ _).mpr ⟨member, rfl⟩)).2
  · intro entry member
    exact (fits entry.name entry ((listed _ _).mpr ⟨member, rfl⟩)).1

theorem oneLineEach_insert {entry : Entry} (unique : (entries.map Entry.name).Nodup)
    (listed : ∀ name other, live name = some other ↔ other ∈ entries ∧ other.name = name)
    (new : live entry.name = none) (keep : Entry → Bool) :
    OneLineEach
      (vpasswdText (entries.takeWhile keep) ++ entry.line ++
        vpasswdText (entries.dropWhile keep))
      (Function.update live entry.name (some entry)) := by
  have order : (entries.takeWhile keep ++ entry :: entries.dropWhile keep).Perm
      (entry :: entries) := by
    have middle : (entries.takeWhile keep ++ entry :: entries.dropWhile keep).Perm
        (entry :: (entries.takeWhile keep ++ entries.dropWhile keep)) := List.perm_middle
    rwa [List.takeWhile_append_dropWhile] at middle
  have absent : ∀ other ∈ entries, other.name ≠ entry.name := by
    intro other member sameName
    rw [(listed _ _).mpr ⟨member, sameName⟩] at new
    cases new
  refine ⟨entries.takeWhile keep ++ entry :: entries.dropWhile keep, ?_, ?_, ?_⟩
  · simp [vpasswdText]
  · rw [(order.map Entry.name).nodup_iff, List.map_cons, List.nodup_cons]
    refine ⟨?_, unique⟩
    intro member
    rcases List.mem_map.mp member with ⟨other, otherMember, sameName⟩
    exact absent other otherMember sameName
  · intro name other
    rw [order.mem_iff, List.mem_cons]
    by_cases sameName : name = entry.name
    · subst name
      rw [Function.update_self, Option.some.injEq]
      constructor
      · intro equal
        exact ⟨.inl equal.symm, equal ▸ rfl⟩
      · intro holds
        rcases holds with ⟨equal | member, otherName⟩
        · exact equal.symm
        · exact absurd otherName (absent other member)
    · rw [Function.update_of_ne sameName, listed]
      constructor
      · intro holds
        exact ⟨.inr holds.1, holds.2⟩
      · intro holds
        rcases holds with ⟨equal | member, otherName⟩
        · exact absurd (equal ▸ otherName).symm sameName
        · exact ⟨member, otherName⟩

theorem oneLineEach_replace {entry : Entry} (unique : (entries.map Entry.name).Nodup)
    (listed : ∀ name other, live name = some other ↔ other ∈ entries ∧ other.name = name)
    (known : live entry.name ≠ none) :
    OneLineEach (vpasswdText (replaceEntry entry entries))
      (Function.update live entry.name (some entry)) := by
  have sameNames : (replaceEntry entry entries).map Entry.name = entries.map Entry.name := by
    rw [replaceEntry, List.map_map]
    apply List.map_congr_left
    intro other _
    rw [Function.comp_apply]
    split
    · assumption
    · rfl
  refine ⟨replaceEntry entry entries, rfl, sameNames ▸ unique, ?_⟩
  intro name other
  rw [replaceEntry, List.mem_map]
  by_cases sameName : name = entry.name
  · subst name
    rw [Function.update_self, Option.some.injEq]
    constructor
    · intro equal
      subst other
      rcases Option.ne_none_iff_exists'.mp known with ⟨old, found⟩
      rcases (listed _ _).mp found with ⟨member, oldName⟩
      exact ⟨⟨old, member, if_pos oldName.symm⟩, rfl⟩
    · intro holds
      rcases holds with ⟨⟨old, _, equal⟩, otherName⟩
      split at equal
      · exact equal
      · rename_i different
        exact absurd (equal ▸ otherName).symm different
  · rw [Function.update_of_ne sameName, listed]
    constructor
    · intro holds
      rcases holds with ⟨member, otherName⟩
      have different : entry.name ≠ other.name := fun equal =>
        sameName (otherName.symm.trans equal.symm)
      exact ⟨⟨other, member, if_neg different⟩, otherName⟩
    · intro holds
      rcases holds with ⟨⟨old, member, equal⟩, otherName⟩
      split at equal
      · exact absurd (equal ▸ otherName).symm sameName
      · exact ⟨equal ▸ member, otherName⟩

theorem oneLineEach_remove (user : List Char) (unique : (entries.map Entry.name).Nodup)
    (listed : ∀ name other, live name = some other ↔ other ∈ entries ∧ other.name = name) :
    OneLineEach (vpasswdText (entries.filter fun entry => user ≠ entry.name))
      (Function.update live user none) := by
  refine ⟨entries.filter fun entry => user ≠ entry.name, rfl, ?_, ?_⟩
  · exact unique.sublist (List.filter_sublist.map Entry.name)
  · intro name other
    rw [List.mem_filter, decide_eq_true_eq]
    by_cases sameName : name = user
    · subst name
      rw [Function.update_self]
      constructor
      · intro impossible
        cases impossible
      · intro holds
        exact absurd holds.2.symm holds.1.2
    · rw [Function.update_of_ne sameName, listed]
      constructor
      · intro holds
        exact ⟨⟨holds.1, fun equal => sameName (holds.2.symm.trans equal.symm)⟩, holds.2⟩
      · intro holds
        exact ⟨holds.1.1, holds.2⟩

theorem fits_update (fits : Fits live) {entry : Entry} (named : entry.name ≠ [])
    (short : entry.line.length < maxBuff) :
    Fits (Function.update live entry.name (some entry)) := by
  intro name other found
  by_cases sameName : name = entry.name
  · subst name
    rw [Function.update_self, Option.some.injEq] at found
    exact ⟨named, found ▸ short⟩
  · rw [Function.update_of_ne sameName] at found
    exact fits name other found

theorem fits_remove (fits : Fits live) (user : List Char) :
    Fits (Function.update live user none) := by
  intro name other found
  by_cases sameName : name = user
  · subst name
    rw [Function.update_self] at found
    cases found
  · rw [Function.update_of_ne sameName] at found
    exact fits name other found

end Updates

/-! ## Runs -/

/-- The file and the map after a call with its result. A call that reports an
error means nothing for the map. -/
def Step (before : Files × Live) (label : Call × Int) (after : Files × Live) : Prop :=
  label.1.Orderly before.2 ∧ label.1.run before.1 = .ok (label.2, after.1) ∧
    after.2 = if label.2 = 0 then label.1.effect before.2 else before.2

def Kept (state : Files × Live) : Prop :=
  OneLineEach state.1.vpasswd state.2 ∧ Fits state.2

theorem replaceEntry_of_absent {entries : List Entry} {replacement : Entry}
    (absent : ∀ entry ∈ entries, replacement.name ≠ entry.name) :
    replaceEntry replacement entries = entries := by
  rw [replaceEntry]
  calc
    (entries.map fun entry => if replacement.name = entry.name then replacement else entry) =
        entries.map id := List.map_congr_left fun entry member => if_neg (absent entry member)
    _ = entries := List.map_id entries

/-- `auth_setpw` replaces the line of a live user and ignores other names. -/
theorem kept_setpw {entries : List Entry} {live : Live} (fits : Fits live)
    (unique : (entries.map Entry.name).Nodup)
    (listed : ∀ name other, live name = some other ↔ other ∈ entries ∧ other.name = name)
    {build : Build} {inpw : Vqpasswd} (plain : PlainRecord build inpw)
    (fit : live inpw.pwName ≠ none → (vpasswdLine build inpw).length ≤ 299) :
    OneLineEach (vpasswdText (replaceEntry (printed plain) entries))
        (if live inpw.pwName = none then live
          else Function.update live inpw.pwName (some (printed plain))) ∧
      Fits (if live inpw.pwName = none then live
        else Function.update live inpw.pwName (some (printed plain))) := by
  by_cases known : live inpw.pwName = none
  · have absent : ∀ entry ∈ entries, (printed plain).name ≠ entry.name := by
      intro entry member sameName
      have found := (listed inpw.pwName entry).mpr ⟨member, sameName.symm⟩
      rw [known] at found
      cases found
    rw [if_pos known, replaceEntry_of_absent absent]
    exact ⟨⟨entries, rfl, unique, listed⟩, fits⟩
  · rcases Option.ne_none_iff_exists'.mp known with ⟨old, found⟩
    rw [if_neg known]
    rw [vpasswdLine_eq_line plain] at fit
    exact ⟨oneLineEach_replace unique listed known,
      fits_update fits (fits _ old found).1 (Nat.lt_succ_of_le (fit known))⟩

/-- What a call prints, it prints as one line, and a call that reports an error prints nothing. -/
theorem run_eq {files : Files} {live : Live} (kept : Kept (files, live)) {call : Call}
    (printable : call.Printable live) :
    (∃ ret, ret ≠ 0 ∧ call.run files = .ok (ret, files)) ∨
      ∃ text, OneLineEach text (call.effect live) ∧ Fits (call.effect live) ∧
        call.run files = (files.install call.site text).map fun after => (0, after) := by
  rcases kept with ⟨⟨entries, text, unique, listed⟩, fits⟩
  rcases fits_entries fits listed with ⟨short, named⟩
  cases call with
  | adduser site crypt user pass gecos dir usePop plain =>
      rcases printable with ⟨userNamed, new, fit⟩
      rw [Call.run, authAdduser_of_plain plain.userPlain plain.gecosPlain text short named,
        authAdduserLine_eq_line usePop plain]
      split
      · exact .inl ⟨_, by decide, rfl⟩
      · split
        · exact .inl ⟨_, by decide, rfl⟩
        · exact .inr ⟨_, oneLineEach_insert unique listed new (notGreater user),
            fits_update fits userNamed (Nat.lt_succ_of_le fit), rfl⟩
  | setpw site inpw plain clearPlain =>
      have given : inpw.pwClearPasswd.isNone = false := by
        simpa [Option.isSome_iff_ne_none] using printable.1
      have replaced := vpasswdText_replaceEntry (printed plain) entries
      rw [show (printed plain).name = inpw.pwName from rfl] at replaced
      rw [Call.run, authSetpw_of_plain plain.gecos given clearPlain text short named,
        vpasswdLine_eq_line plain, replaced]
      split
      · next refused =>
          exact .inl ⟨_, fun zero => refused ((VaCode.number_eq_zero_iff _).mp zero), rfl⟩
      · split
        · exact .inl ⟨_, by decide, rfl⟩
        · split
          · exact .inl ⟨_, by decide, rfl⟩
          · have set := kept_setpw fits unique listed plain printable.2
            exact .inr ⟨_, set.1, set.2, rfl⟩
  | deluser site user =>
      rw [Call.run, authDeluser_eq user text short named]
      split
      · exact .inl ⟨_, by decide, rfl⟩
      · exact .inr ⟨_, oneLineEach_remove user unique listed, fits_remove fits user, rfl⟩

theorem kept_run {files after : Files} {live : Live} {call : Call} {ret : Int}
    (kept : Kept (files, live)) (printable : call.Printable live)
    (ran : call.run files = .ok (ret, after)) :
    Kept (after, if ret = 0 then call.effect live else live) := by
  rcases run_eq kept printable with ⟨code, failed, same⟩ | ⟨text, oneLine, fits, same⟩
  · rw [same] at ran
    cases ran
    rw [if_neg failed]
    exact kept
  · rw [same] at ran
    rcases map_eq_ok ran with ⟨installed, made, equal⟩
    cases equal
    rw [if_pos rfl, Kept, (install_eq_ok made).1]
    exact ⟨oneLine, fits⟩

/-- An orderly call never reads or writes outside its objects. -/
theorem exists_run {files : Files} {live : Live} (kept : Kept (files, live)) {call : Call}
    (orderly : call.Orderly live) : ∃ result, call.run files = .ok result := by
  rcases run_eq kept orderly.printable with ⟨code, _, same⟩ | ⟨text, oneLine, _, same⟩
  · exact ⟨_, same⟩
  · rcases oneLine with ⟨entries, rfl, _, listed⟩
    have fits : call.site.noMakeIndex = false →
        ∀ entry ∈ entries, entry.line.length < pwlineSize := by
      intro makes entry member
      exact Nat.lt_succ_of_le
        (orderly.indexable makes entry.name entry ((listed _ _).mpr ⟨member, rfl⟩))
    rcases install_of_fits files fits with ⟨after, installed⟩
    rw [same, installed]
    exact ⟨_, rfl⟩

/-- Along every run of orderly calls that starts in a file with one line for
each live user, the file keeps one line for each live user, with his latest
field values, and the next orderly call returns. -/
theorem run_keeps_oneLineEach {start : Files × Live} (kept : Kept start)
    {labels : List (Call × Int)} {finish : Files × Live} (run : Run Step start labels finish) :
    OneLineEach finish.1.vpasswd finish.2 ∧
      ∀ call : Call, call.Orderly finish.2 → ∃ result, call.run finish.1 = .ok result := by
  have keptFinish : Kept finish := by
    apply run.preserves Kept kept
    intro before label after keptBefore step
    rcases step with ⟨orderly, ran, means⟩
    have keptAfter := kept_run keptBefore orderly.printable ran
    rw [← means] at keptAfter
    exact keptAfter
  exact ⟨keptFinish.1, fun call orderly => exists_run keptFinish orderly⟩

/-! ## A user comes and goes -/

def noFiles : Files := ⟨[], none⟩

def noUsers : Live := fun _ => none

theorem kept_noFiles : Kept (noFiles, noUsers) := by
  refine ⟨⟨[], rfl, List.nodup_nil, fun _ _ => by simp [noUsers]⟩, ?_⟩
  intro name entry found
  cases found

def crypted (_ : List Char) : List Char := "$1$ab$Kc".toList

def addBob : Call :=
  .adduser exampleCom crypted "bob".toList "secret".toList "Bob".toList [] true
    ⟨by decide, by decide, by decide, by decide, by decide, by decide⟩

def deleteBob (site : Site) : Call := .deluser site "bob".toList

/-- The files after a call that returns. -/
def filesAfter (files : Files) (call : Call) : Files :=
  match call.run files with
  | .error _ => files
  | .ok (_, after) => after

theorem step_addBob : Step (noFiles, noUsers) (addBob, 0)
    (filesAfter noFiles addBob, addBob.effect noUsers) := by
  refine ⟨⟨⟨by decide, rfl, by decide⟩, ?_⟩, by decide +kernel, rfl⟩
  intro _ name entry found
  by_cases bob : name = "bob".toList
  · simp only [bob, addBob, Call.effect, Function.update_self, Option.some.injEq] at found
    rw [← found]
    decide
  · rw [Call.effect_of_ne addBob bob] at found
    cases found

theorem deleteBob_empties (site : Site) (name : List Char) :
    (deleteBob site).effect (addBob.effect noUsers) name = none := by
  by_cases bob : name = "bob".toList
  · simp only [bob, deleteBob, Call.effect, Function.update_self]
  · rw [Call.effect_of_ne (deleteBob site) bob, Call.effect_of_ne addBob bob]
    rfl

theorem step_deleteBob :
    Step (filesAfter noFiles addBob, addBob.effect noUsers) (deleteBob exampleCom, 0)
      (filesAfter (filesAfter noFiles addBob) (deleteBob exampleCom),
        (deleteBob exampleCom).effect (addBob.effect noUsers)) := by
  refine ⟨⟨trivial, ?_⟩, by decide +kernel, rfl⟩
  intro _ name entry found
  rw [deleteBob_empties] at found
  cases found

theorem run_addBob_deleteBob :
    ∃ finish, Run Step (noFiles, noUsers) [(addBob, 0), (deleteBob exampleCom, 0)] finish ∧
      OneLineEach finish.1.vpasswd finish.2 ∧
        ∀ call : Call, call.Orderly finish.2 → ∃ result, call.run finish.1 = .ok result :=
  have run := (Run.start.next step_addBob).next step_deleteBob
  ⟨_, run, run_keeps_oneLineEach kept_noFiles run⟩

/-- A record within all limits whose line takes 319 characters. -/
def longBob : Vqpasswd where
  pwName := "bob".toList
  pwPasswd := "$1$ab$Kc".toList
  pwUid := 1
  pwGid := 0
  pwFlags := 0
  pwGecos := "Bob".toList
  pwDir := '/' :: List.replicate 159 'd'
  pwShell := "NOQUOTA".toList
  pwClearPasswd := some (List.replicate 128 'c')

/-- The domain in a process that leaves the index as it is. -/
def withoutIndex : Site := { exampleCom with noMakeIndex := true }

def setLongBob (noMakeIndex : Bool) : Call :=
  .setpw { exampleCom with noMakeIndex } longBob
    ⟨by decide, by decide, by decide, by decide, by decide, fun _ => by decide⟩
    (by
      rintro clear ⟨⟩
      decide)

theorem deleteBob_setLongBob_empties (name : List Char) :
    (deleteBob withoutIndex).effect ((setLongBob true).effect (addBob.effect noUsers)) name =
      none := by
  by_cases bob : name = "bob".toList
  · simp only [bob, deleteBob, Call.effect, Function.update_self]
  · rw [Call.effect_of_ne (deleteBob withoutIndex) bob, Call.effect_of_ne (setLongBob true) bob,
      Call.effect_of_ne addBob bob]
    rfl

/-- The long record takes `make_vpasswd_cdb` out of its buffer. Without the index, deleting the
user whose long record was set leaves the end of his line. -/
theorem deleteBob_leaves_fragment :
    vcheckVqpw exampleCom.build longBob exampleCom.domain = .success ∧
      addBob.run noFiles = .ok (0, filesAfter noFiles addBob) ∧
      (setLongBob false).run (filesAfter noFiles addBob) = .error .outOfBounds ∧
      (setLongBob true).run (filesAfter noFiles addBob) =
        .ok (0, filesAfter (filesAfter noFiles addBob) (setLongBob true)) ∧
      (deleteBob withoutIndex).run (filesAfter (filesAfter noFiles addBob) (setLongBob true)) =
        .ok (0, filesAfter (filesAfter (filesAfter noFiles addBob) (setLongBob true))
          (deleteBob withoutIndex)) ∧
      (filesAfter (filesAfter (filesAfter noFiles addBob) (setLongBob true))
          (deleteBob withoutIndex)).vpasswd =
        List.replicate 19 'c' ++ ['\n'] ∧
      ¬OneLineEach
        (filesAfter (filesAfter (filesAfter noFiles addBob) (setLongBob true))
          (deleteBob withoutIndex)).vpasswd
        ((deleteBob withoutIndex).effect
          ((setLongBob true).effect (addBob.effect noUsers))) := by
  have fragment : (filesAfter (filesAfter (filesAfter noFiles addBob) (setLongBob true))
      (deleteBob withoutIndex)).vpasswd = List.replicate 19 'c' ++ ['\n'] := by decide +kernel
  refine ⟨by decide +kernel, by decide +kernel, by decide +kernel, by decide +kernel,
    by decide +kernel, fragment, ?_⟩
  intro kept
  rcases kept with ⟨entries, text, _, listed⟩
  cases entries with
  | nil =>
      rw [fragment] at text
      cases text
  | cons entry entries =>
      have found := (listed entry.name entry).mpr ⟨List.mem_cons_self, rfl⟩
      rw [deleteBob_setLongBob_empties] at found
      cases found

end Vpopmail.Vcdb

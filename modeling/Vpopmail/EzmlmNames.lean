import Vpopmail.EzmlmReplyTo
import Vpopmail.Foundation.FileTree

/-! # Lists under their own names

`default_options` puts colons for the periods in the paths of a list, and the functions that look
for the list and for its files do not.
-/

namespace Vpopmail.Ezmlm

open Text Vpopmail.Stream Buffer Components
open FileTree (Place resolve move target resolve_plain not_prefix_resolve target_append_slash)
open LinkedTree (Proper)
open Vlistlib (maxName maxFileName qmailName sprintf)

/-! ## Paths of a list -/

/-- The path of a file in the directory that has the name of the list. -/
def filePath (list : ListInfoType) (file : List Char) : List Char :=
  list.entry.path ++ '/' :: list.name.text ++ '/' :: file

/-- `ezmlm_path`, without a path if `-1` is returned. -/
def ezmlmPath (list : ListInfoType) (mode : Int) (size : Nat) : Option (List Char) :=
  match mode with
  | 0 => some (snprintf size (filePath list []))
  | 1 => some (snprintf size (filePath list "mod".toList))
  | 2 => some (snprintf size (filePath list "digest".toList))
  | 3 => some (snprintf size (filePath list "deny".toList))
  | _ => none

/-- `realfn` and `tempfn`. -/
def replyToPaths (list : ListInfoType) (filename : List Char) :
    Checked (List Char × List Char) := do
  let realfn ← sprintf 256 (filePath list filename)
  let tempfn ← sprintf 256 (realfn ++ ".tmp".toList)
  .ok (realfn, tempfn)

/-- What is copied to the new file: every line but the `Reply-To` header. -/
def withoutReplyTo (text : List Char) : List Char :=
  (((fgetsLoop 256 text).map cstring).filter fun buf =>
    !sameText "Reply-To".toList (buf.take 8)).flatten

/-- `ezmlm_setReplyTo`: the files afterwards. `opens` and `renames` tell which paths can be
written to and renamed. -/
def ezmlmSetReplyTo (opens renames : List Char → Bool) (files : List Char → Option (List Char))
    (list : ListInfoType) (filename newtext : List Char) :
    Checked (List Char → Option (List Char)) :=
  (replyToPaths list filename).map fun (realfn, tempfn) path =>
    match files realfn with
    | none => files path
    | some text =>
        let written := withoutReplyTo text ++ newtext
        if !opens tempfn then files path
        else if renames tempfn then
          if path = realfn then some written else if path = tempfn then none else files path
        else if path = tempfn then some written
        else files path

/-- The paths that `ezmlm_path` and `ezmlm_setReplyTo` make. -/
inductive Built (list : ListInfoType) (filename : List Char) : List Char → Prop
  | path (mode : Int) (path : List Char) :
      ezmlmPath list mode maxBuff = some path → Built list filename path
  | realfn (realfn tempfn : List Char) :
      replyToPaths list filename = .ok (realfn, tempfn) → Built list filename realfn
  | tempfn (realfn tempfn : List Char) :
      replyToPaths list filename = .ok (realfn, tempfn) → Built list filename tempfn

/-- The files whose paths are made. -/
def builtFiles (list : ListInfoType) (filename : List Char) : List (List Char) :=
  [[], "mod".toList, "digest".toList, "deny".toList] ++
    if (filePath list filename).length + 4 < 256 then [filename, filename ++ ".tmp".toList]
    else []

section Paths

variable {list : ListInfoType} {filename path : List Char}

/-- Only files with these paths are changed. -/
theorem built_of_ezmlmSetReplyTo {opens renames : List Char → Bool}
    {files after : List Char → Option (List Char)} {newtext : List Char}
    (set : ezmlmSetReplyTo opens renames files list filename newtext = .ok after)
    (changed : after path ≠ files path) : Built list filename path := by
  rw [ezmlmSetReplyTo] at set
  cases made : replyToPaths list filename with
  | error fault =>
      rw [made] at set
      cases set
  | ok paths =>
      rcases paths with ⟨realfn, tempfn⟩
      rw [made] at set
      have same := Except.ok.inj set
      by_contra foreign
      apply changed
      have real : path ≠ realfn := by
        rintro rfl
        exact foreign (.realfn _ _ made)
      have temp : path ≠ tempfn := by
        rintro rfl
        exact foreign (.tempfn _ _ made)
      rw [← same]
      simp only
      split
      · rfl
      · simp only [if_neg real, if_neg temp, ite_self]

theorem replyToPaths_eq (list : ListInfoType) (filename : List Char) :
    replyToPaths list filename =
      if (filePath list filename).length + 4 < 256 then
        .ok (filePath list filename, filePath list (filename ++ ".tmp".toList))
      else .error .outOfBounds := by
  have temp : filePath list filename ++ ".tmp".toList =
      filePath list (filename ++ ".tmp".toList) := by
    rw [filePath, filePath, List.append_assoc, List.cons_append]
  have longer : (filePath list filename ++ ".tmp".toList).length =
      (filePath list filename).length + 4 := List.length_append
  rw [replyToPaths, sprintf]
  by_cases whole : (filePath list filename).length + 4 < 256
  · have short : (filePath list filename).length < 256 := by omega
    rw [if_pos whole, if_pos short]
    change sprintf 256 (filePath list filename ++ ".tmp".toList) >>= _ = _
    rw [sprintf, longer, if_pos whole, temp]
    rfl
  · rw [if_neg whole]
    split
    · change sprintf 256 (filePath list filename ++ ".tmp".toList) >>= _ = _
      rw [sprintf, longer, if_neg whole]
      rfl
    · rfl

theorem built_iff (short : list.entry.path.length + 8 + list.name.text.length < maxName) :
    Built list filename path ↔ ∃ file ∈ builtFiles list filename, path = filePath list file := by
  have size : maxName = 160 := rfl
  have whole : ∀ file : List Char, file.length ≤ 6 →
      snprintf maxBuff (filePath list file) = filePath list file := by
    intro file few
    apply List.take_of_length_le
    rw [filePath, List.length_append, List.length_append, List.length_cons, List.length_cons]
    have buff : maxBuff = 300 := rfl
    omega
  constructor
  · intro built
    cases built with
    | path mode path made =>
        unfold ezmlmPath at made
        split at made
        · exact ⟨[], by simp [builtFiles], (Option.some.inj made).symm.trans (whole _ (by decide))⟩
        · exact ⟨_, by simp [builtFiles], (Option.some.inj made).symm.trans (whole _ (by decide))⟩
        · exact ⟨_, by simp [builtFiles], (Option.some.inj made).symm.trans (whole _ (by decide))⟩
        · exact ⟨_, by simp [builtFiles], (Option.some.inj made).symm.trans (whole _ (by decide))⟩
        · cases made
    | realfn _ tempfn made =>
        rw [replyToPaths_eq] at made
        split at made
        next fits =>
          cases made
          exact ⟨filename, by simp [builtFiles, fits], rfl⟩
        · cases made
    | tempfn realfn _ made =>
        rw [replyToPaths_eq] at made
        split at made
        next fits =>
          cases made
          exact ⟨filename ++ ".tmp".toList, by simp [builtFiles, fits], rfl⟩
        · cases made
  · rintro ⟨file, member, rfl⟩
    rcases List.mem_append.mp member with mode | given
    · simp only [List.mem_cons, List.not_mem_nil, or_false] at mode
      rcases mode with rfl | rfl | rfl | rfl
      · exact .path 0 _ (congrArg some (whole _ (by decide)))
      · exact .path 1 _ (congrArg some (whole _ (by decide)))
      · exact .path 2 _ (congrArg some (whole _ (by decide)))
      · exact .path 3 _ (congrArg some (whole _ (by decide)))
    · split at given
      next fits =>
        have made := replyToPaths_eq list filename
        rw [if_pos fits] at made
        simp only [List.mem_cons, List.not_mem_nil, or_false] at given
        rcases given with rfl | rfl
        · exact .realfn _ _ made
        · exact .tempfn _ _ made
      · cases given

end Paths

/-! ## Lists that are accepted -/

/-- A list that `default_options` sets up. -/
structure Accepted (site : Site) where
  address : List Char
  before : ListInfoType
  list : ListInfoType
  set : defaultOptions site before address false = .ok (.ok list)

theorem nul_free_path {linebuf : List Char} {entry : DomainEntry} (free : Free nul linebuf)
    (parsed : parseEntry linebuf = some entry) : Free nul entry.path := by
  unfold parseEntry at parsed
  split at parsed
  next text =>
    rcases Option.bind_eq_some_iff.mp parsed with ⟨⟨domain, rest⟩, first, parsed⟩
    simp only at parsed
    split at parsed
    · cases parsed
    rcases Option.bind_eq_some_iff.mp parsed with ⟨⟨realDomain, fields⟩, second, parsed⟩
    simp only at parsed
    split at parsed
    · cases parsed
    rcases Option.bind_eq_some_iff.mp parsed with ⟨⟨uid, behindUid⟩, third, parsed⟩
    rcases Option.bind_eq_some_iff.mp parsed with ⟨⟨gid, behindGid⟩, fourth, parsed⟩
    rcases Option.map_eq_some_iff.mp parsed with ⟨⟨path, left⟩, fifth, rfl⟩
    intro member
    apply free
    apply List.mem_cons_of_mem
    exact mem_of_mem_strtok_rest first nul (mem_of_mem_strtok_rest second nul
      (mem_of_mem_strtok_rest third nul (mem_of_mem_strtok_rest fourth nul
        (mem_of_mem_strtok fifth nul member).1)))
  · cases parsed

theorem exists_of_nextEntry {matchBuffer rest : List Char} {rounds : Nat} {stream : List Char}
    {entry : DomainEntry} (found : nextEntry matchBuffer rounds stream = some (entry, rest)) :
    ∃ linebuf, parseEntry (cstring linebuf) = some entry := by
  induction rounds generalizing stream with
  | zero => cases found
  | succ rounds induction =>
      rw [nextEntry] at found
      split at found
      · cases found
      next linebuf behind _ =>
        split at found
        next entry_ scanned =>
          cases found
          exact ⟨linebuf, (Option.filter_eq_some_iff.mp scanned).1⟩
        · exact induction found

theorem Site.free_path {site : Site} {domain : List Char} {entry : DomainEntry}
    (present : site.domainEntry domain = some entry) : Free nul entry.path := by
  change (continueScan ⟨site.process.installation.files.assign,
    (matchName domain site.process).1⟩).1 = some entry at present
  rw [continueScan] at present
  split at present
  · cases present
  · split at present
    next found =>
      cases present
      rcases exists_of_nextEntry found with ⟨linebuf, parsed⟩
      exact nul_free_path (free_takeWhile_ne nul linebuf) parsed
    · cases present

theorem valid_of_parseEmail {defaultDomain email name domain : List Char} {size : Nat}
    (parsed : parseEmail defaultDomain size email = some (name, domain)) :
    isUsernameValid name = true := by
  rw [parseEmail] at parsed
  split at parsed
  next user rest split_ =>
    split at parsed
    · cases parsed
    next valid =>
      split at parsed
      · cases parsed
      · cases parsed
        rwa [Bool.not_eq_true', Bool.not_eq_false] at valid

/-- The names and paths that `default_options` leaves for an address. -/
structure Accepted.Names (list : ListInfoType) : Prop where
  dir : list.dir.text = list.entry.path ++ '/' :: list.name.text.map colonOfPeriod
  dot : list.dot.text = list.entry.path ++ '/' :: qmailPrefix ++ list.name.text.map colonOfPeriod
  short : list.entry.path.length + 8 + list.name.text.length < maxName
  colon : Free ':' list.name.text

theorem colonOfPeriod_eq_nul {char : Char} (same : colonOfPeriod char = nul) : char = nul := by
  unfold colonOfPeriod at same
  split at same
  · cases same
  · exact same

theorem Accepted.names {site : Site} (accepted : Accepted site) : Names accepted.list := by
  rcases accepted with ⟨address, before, list, set⟩
  rcases exists_of_defaultOptions set with ⟨name, domain, entry, parted, present, holds⟩
  have fits : NamesFit site address false := inside_defaultOptions.mp ⟨_, set⟩
  have room := ((fits name domain parted).2 entry present).2
  have size : maxName = 160 := rfl
  have valid : isUsernameValid name = true := by
    rcases parts_cases parted with ⟨only, -⟩ | ⟨-, -, parsed⟩
    · cases only
    · exact valid_of_parseEmail parsed
  have plain : Free nul name := free_of_isUsernameValid rfl valid
  have path : Free nul entry.path := Site.free_path present
  have named : list.name.text = name := holds.named.trans (cstring_of_free plain)
  have own : qmailName name = name.map colonOfPeriod := by
    have file : maxFileName = 512 := rfl
    rw [qmailName, snprintf, List.take_of_length_le (by omega)]
  have free : Free nul (name.map colonOfPeriod) := by
    intro member
    rcases List.mem_map.mp member with ⟨char, inside, same⟩
    exact plain (colonOfPeriod_eq_nul same ▸ inside)
  refine ⟨?_, ?_, ?_, ?_⟩
  · have whole : Free nul (entry.path ++ '/' :: name.map colonOfPeriod) :=
      free_append.mpr ⟨path, free_cons.mpr ⟨by decide, free⟩⟩
    rw [holds.dir, dirPath, own, cstring_of_free whole, holds.entered, named]
  · have whole : Free nul (entry.path ++ '/' :: qmailPrefix ++ name.map colonOfPeriod) :=
      free_append.mpr ⟨free_append.mpr ⟨path, by decide⟩, free⟩
    rw [holds.dot, dotPath, own, cstring_of_free whole, holds.entered, named]
  · rw [holds.entered, named]
    exact room
  · rw [named]
    exact free_of_isUsernameValid rfl valid

/-! ## Where a list stands -/

/-- The place of a list: below the directory of its domain, under its name with colons. -/
def listPlace (cwd : Place) (list : ListInfoType) : Place :=
  target cwd (list.entry.path ++ ['/']) ++ components (list.name.text.map colonOfPeriod)

/-- A path leads into a directory. -/
def LiesIn (cwd : Place) (path directory : List Char) : Prop :=
  target cwd directory <+: target cwd path

section Lists

variable {cwd : Place} {list other : ListInfoType} {filename file : List Char}

theorem period_free_colons {name : List Char} : Free '.' (name.map colonOfPeriod) := by
  intro member
  rcases List.mem_map.mp member with ⟨char, -, same⟩
  unfold colonOfPeriod at same
  split at same
  · cases same
  next other => exact other same

theorem slash_of_colons {name : List Char} (slash : '/' ∈ name.map colonOfPeriod) : '/' ∈ name := by
  rcases List.mem_map.mp slash with ⟨char, member, same⟩
  unfold colonOfPeriod at same
  split at same
  · exact absurd same (by decide)
  · exact same ▸ member

theorem proper_tmp (proper : Proper filename) : Proper (filename ++ ".tmp".toList) := by
  have size : (filename ++ ".tmp".toList).length = filename.length + 4 := List.length_append
  refine ⟨?_, ?_, ?_, ?_⟩
  · exact List.append_ne_nil_of_left_ne_nil proper.nonempty _
  · intro slash
    rcases List.mem_append.mp slash with own | added
    · exact proper.plain own
    · exact absurd added (by decide)
  · intro dots
    have length := congrArg List.length dots
    rw [size, List.length_singleton] at length
    omega
  · intro dots
    have length := congrArg List.length dots
    rw [size, List.length_cons, List.length_singleton] at length
    omega

theorem target_dir (names : Accepted.Names list) :
    target cwd list.dir.text = listPlace cwd list := by
  rw [names.dir, target_append_slash, resolve_plain]
  · rfl
  · intro name member inside
    exact period_free_colons (mem_of_mem_components member inside)

theorem colons_of_plain {name : List Char} (plain : Free '.' name) :
    name.map colonOfPeriod = name := by
  have same : ∀ char ∈ name, colonOfPeriod char = id char := by
    intro char member
    unfold colonOfPeriod
    rw [if_neg]
    · rfl
    · rintro rfl
      exact plain member
  rw [List.map_congr_left same, List.map_id]

/-- The files of a list without periods stand in its directory, unless their names lead out. -/
theorem target_filePath (plain : Free '.' list.name.text) (file : List Char) :
    target cwd (filePath list file) = resolve (listPlace cwd list) (components file) := by
  have names : ∀ name ∈ components list.name.text, Free '.' name :=
    fun name member inside => plain (mem_of_mem_components member inside)
  rw [filePath, List.append_assoc, List.cons_append, target_append_slash, components_append_slash,
    FileTree.resolve_append, resolve_plain _ names, listPlace, colons_of_plain plain]

/-- The subscribers of a list with a period are looked for outside of its directory. -/
theorem plain_of_subscribers (names : Accepted.Names list)
    (inside : LiesIn cwd (filePath list []) list.dir.text) : Free '.' list.name.text := by
  intro period
  have colon : ':' ∈ list.name.text.map colonOfPeriod := List.mem_map.mpr ⟨'.', period, rfl⟩
  rcases exists_mem_components colon (by decide) with ⟨name, member, own⟩
  have foreign : name ∉ components (list.name.text ++ '/' :: []) := by
    intro listed
    rcases List.mem_append.mp (mem_of_mem_components listed own) with here | behind
    · exact names.colon here
    · exact absurd behind (by decide)
  rw [LiesIn, target_dir names, filePath, List.append_assoc, List.cons_append,
    target_append_slash] at inside
  exact not_prefix_resolve member foreign inside

end Lists

/-! ## Finding a list -/

/-- What `ezmlm-make` makes: there is the `.qmail` file, and nothing has changed but that file and
the directory. -/
structure Created (cwd : Place) (list : ListInfoType) (before after : List Char → Option (List Char)) :
    Prop where
  dot : (after list.dot.text).isSome = true
  others : ∀ path, target cwd path ≠ target cwd list.dot.text →
    ¬LiesIn cwd path list.dir.text → after path = before path

/-- `listInit` finds the list that has been made, up to what is in its files, and the paths that
are made for it lie in its directory and in that of no other list. -/
structure FoundByName {site : Site} (cwd : Place) (own : Accepted site)
    (lists : List (Accepted site)) (filename : List Char) : Prop where
  opening : ∀ files, Created cwd own.list site.files files →
    listInit { site with files := files } own.before own.address false false =
      (ezmlmDecode { site with files := files } own.list).map .ok
  creating : ∀ files, Created cwd own.list site.files files →
    listInit { site with files := files } own.before own.address false true = .ok (.error 5)
  inside : ∀ path, Built own.list filename path → LiesIn cwd path own.list.dir.text
  apart : ∀ path, Built own.list filename path → ∀ other ∈ lists,
    target cwd other.list.dir.text ≠ target cwd own.list.dir.text →
      ¬LiesIn cwd path other.list.dir.text

/-- The name of the list has no period, the name of the file does not lead out of its directory,
and its files are not below the place of another list. -/
structure NamedPlainly {site : Site} (cwd : Place) (own : Accepted site)
    (lists : List (Accepted site)) (filename : List Char) : Prop where
  plain : Free '.' own.list.name.text
  inside : ∀ file ∈ builtFiles own.list filename,
    listPlace cwd own.list <+: resolve (listPlace cwd own.list) (components file)
  apart : ∀ file ∈ builtFiles own.list filename, ∀ other ∈ lists,
    listPlace cwd other.list ≠ listPlace cwd own.list →
      ¬listPlace cwd other.list <+: resolve (listPlace cwd own.list) (components file)

section Finding

variable {site : Site} {cwd : Place} {own : Accepted site} {files : List Char → Option (List Char)}

/-- Without periods the file that is looked for is the one that has been made. -/
theorem exists_created (plain : Free '.' own.list.name.text)
    (created : Created cwd own.list site.files files) :
    isExistingAddress { site with files := files } own.list.domain.text own.list.name.text
      own.list.entry.path = true := by
  have names := own.names
  have dot := names.dot
  rw [colons_of_plain plain] at dot
  have whole : snprintf maxBuff
      (own.list.entry.path ++ '/' :: qmailPrefix ++ own.list.name.text) = own.list.dot.text := by
    rw [dot]
    apply List.take_of_length_le
    have short := names.short
    have size : maxName = 160 := rfl
    have buff : maxBuff = 300 := rfl
    have fixed : ('/' :: qmailPrefix).length = 8 := rfl
    rw [List.length_append, List.length_append, fixed]
    omega
  have found : isExistingAlias { site with files := files } own.list.entry.path
      own.list.name.text = true := by
    rw [isExistingAlias, whole]
    exact created.dot
  rw [isExistingAddress, found, Bool.or_true]

theorem listInit_created (plain : Free '.' own.list.name.text)
    (created : Created cwd own.list site.files files) (isCreating : Bool) :
    listInit { site with files := files } own.before own.address false isCreating =
      if isCreating then .ok (.error 5)
      else (ezmlmDecode { site with files := files } own.list).map .ok := by
  have set : defaultOptions { site with files := files } own.before own.address false =
      .ok (.ok own.list) := own.set
  rw [listInit, set]
  simp only [Except.bind, Bool.false_eq_true, if_false, exists_created plain created, if_true]

/-- In one domain, with names that an entry of a directory can have, only a period is in the
way. -/
theorem namedPlainly_iff_of_domain {lists : List (Accepted site)} {filename : List Char}
    (same : ∀ other ∈ lists, target cwd (other.list.entry.path ++ ['/']) =
      target cwd (own.list.entry.path ++ ['/']))
    (single : ∀ other ∈ own :: lists, other.list.name.text ≠ [] ∧ '/' ∉ other.list.name.text)
    (proper : Proper filename) :
    NamedPlainly cwd own lists filename ↔ Free '.' own.list.name.text := by
  have place : ∀ other ∈ own :: lists, components (other.list.name.text.map colonOfPeriod) =
      [other.list.name.text.map colonOfPeriod] := by
    intro other member
    apply LinkedTree.Tree.components_name
    refine ⟨?_, ?_, ?_, ?_⟩
    · exact fun none => (single other member).1 (List.map_eq_nil_iff.mp none)
    · exact fun slash => (single other member).2 (slash_of_colons slash)
    · intro dots
      have free := @period_free_colons other.list.name.text
      rw [dots] at free
      exact free List.mem_cons_self
    · intro dots
      have free := @period_free_colons other.list.name.text
      rw [dots] at free
      exact free List.mem_cons_self
  have below : ∀ file ∈ builtFiles own.list filename, ∃ more,
      resolve (listPlace cwd own.list) (components file) = listPlace cwd own.list ++ more := by
    intro file member
    rcases List.mem_append.mp member with mode | given
    · have plain : Free '.' file := by
        simp only [List.mem_cons, List.not_mem_nil, or_false] at mode
        rcases mode with rfl | rfl | rfl | rfl <;> decide
      exact ⟨_, resolve_plain _ fun name inside period => plain (mem_of_mem_components inside period)⟩
    · have named : Proper file := by
        split at given
        · simp only [List.mem_cons, List.not_mem_nil, or_false] at given
          rcases given with rfl | rfl
          · exact proper
          · exact proper_tmp proper
        · cases given
      refine ⟨[file], ?_⟩
      rw [LinkedTree.Tree.components_name named, resolve, List.foldl_cons, List.foldl_nil, move,
        if_neg named.notDot, if_neg named.notDotdot]
  constructor
  · exact fun found => found.plain
  · intro plain
    refine ⟨plain, ?_, ?_⟩
    · intro file member
      rcases below file member with ⟨more, equal⟩
      rw [equal]
      exact List.prefix_append _ _
    · intro file member other listed distinct inside
      rcases below file member with ⟨more, equal⟩
      rw [equal, listPlace, listPlace, same other listed, place other (List.mem_cons_of_mem _ listed),
        place own List.mem_cons_self, List.append_assoc, List.prefix_append_right_inj,
        List.singleton_append, List.cons_prefix_cons] at inside
      apply distinct
      rw [listPlace, listPlace, same other listed, inside.1]

end Finding

theorem foundByName_iff {site : Site} (cwd : Place) (own : Accepted site)
    (lists : List (Accepted site)) (filename : List Char) :
    FoundByName cwd own lists filename ↔ NamedPlainly cwd own lists filename := by
  have built := fun path => @built_iff own.list filename path own.names.short
  constructor
  · intro found
    have subscribers : filePath own.list [] ∈ {path | Built own.list filename path} :=
      (built _).mpr ⟨[], by simp [builtFiles], rfl⟩
    have plain := plain_of_subscribers own.names (found.inside _ subscribers)
    refine ⟨plain, ?_, ?_⟩
    · intro file member
      have inside := found.inside _ ((built _).mpr ⟨file, member, rfl⟩)
      rwa [LiesIn, target_dir own.names, target_filePath plain] at inside
    · intro file member other listed distinct
      have apart := found.apart _ ((built _).mpr ⟨file, member, rfl⟩) other listed
      rw [LiesIn, target_dir own.names, target_dir other.names, target_filePath plain] at apart
      exact apart distinct
  · rintro ⟨plain, inside, apart⟩
    refine ⟨?_, ?_, ?_, ?_⟩
    · exact fun files created => listInit_created plain created false
    · exact fun files created => listInit_created plain created true
    · intro path made
      rcases (built path).mp made with ⟨file, member, rfl⟩
      rw [LiesIn, target_dir own.names, target_filePath plain]
      exact inside file member
    · intro path made other listed distinct
      rcases (built path).mp made with ⟨file, member, rfl⟩
      rw [target_dir own.names, target_dir other.names] at distinct
      rw [LiesIn, target_dir other.names, target_filePath plain]
      exact apart file member other listed distinct

/-- The list `x.y` of the domain `a.b` is found under `x:y`. -/
theorem not_foundByName :
    ¬∀ site cwd (own : Accepted site) lists filename, FoundByName cwd own lists filename := by
  intro found
  have accepted : ((defaultOptions emptyReplyTo blankList "x.y@a.b".toList false).toOption.bind
      Except.toOption).isSome = true := by decide +kernel
  rcases Option.isSome_iff_exists.mp accepted with ⟨list, some_⟩
  rcases Option.bind_eq_some_iff.mp some_ with ⟨result, outer, inner⟩
  have set : defaultOptions emptyReplyTo blankList "x.y@a.b".toList false = .ok (.ok list) := by
    cases result with
    | error code => cases inner
    | ok setUp =>
        cases inner
        cases done : defaultOptions emptyReplyTo blankList "x.y@a.b".toList false with
        | error fault =>
            rw [done] at outer
            cases outer
        | ok result =>
            rw [done] at outer
            cases outer
            rfl
  have named : list.name.text = "x.y".toList := by
    rcases exists_of_defaultOptions set with ⟨name, domain, entry, parted, -, holds⟩
    have own : parts emptyReplyTo "x.y@a.b".toList false =
        .ok ("x.y".toList, "a.b".toList) := by decide +kernel
    rw [own] at parted
    cases parted
    exact holds.named
  have own := found emptyReplyTo [] ⟨_, _, list, set⟩ [] "headeradd".toList
  have names := Accepted.names ⟨_, _, list, set⟩
  have subscribers := (@built_iff list "headeradd".toList _ names.short).mpr
    ⟨[], List.mem_append_left _ List.mem_cons_self, rfl⟩
  apply plain_of_subscribers names (own.inside _ subscribers)
  rw [named]
  decide

end Vpopmail.Ezmlm

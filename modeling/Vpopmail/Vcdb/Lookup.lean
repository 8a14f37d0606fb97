import Vpopmail.Vcdb.PasswdLine

/-! # Lookup and enumeration

`auth_getpw` reads the index and `auth_getall` the text. They agree when the
line buffer of `make_vpasswd_cdb` holds every line, the names survive the
lower-casing of `auth_getpw`, and `vgetent` sets the clear password.
-/

namespace Vpopmail.Vcdb

open Vpopmail Text Vpopmail.Stream Buffer

/-! ## A line that leaves the buffer -/

/-- Without a newline in the buffer the second walk leaves it. -/
theorem splitEntry_error {cells : List Char} (free : Free '\n' cells) :
    splitEntry cells = .error .outOfBounds := by
  rw [splitEntry]
  cases walked : walkTo ':' cells 0 with
  | error fault => cases fault; rfl
  | ok colon =>
      have keyedFree : Free '\n' (cells.set colon nul) := by
        intro member
        rcases List.mem_or_eq_of_mem_set member with member | equal
        · exact free member
        · exact absurd equal (by decide)
      have inside : colon ≤ (cells.set colon nul).length := by
        rw [List.length_set]
        exact Nat.le_of_lt (walkTo_lt walked)
      simp only [Except.bind, walkTo_error keyedFree inside]

theorem indexChunks_append_error {entries : List Entry} {cells : List Char}
    (size : cells.length = pwlineSize)
    (fit : ∀ entry ∈ entries, entry.line.length < pwlineSize) {chunk : List Char}
    (free : Free '\n' chunk) (full : chunk.length = pwlineSize - 1)
    (chunks : List (List Char)) :
    indexChunks cells (entries.map Entry.line ++ chunk :: chunks) = .error .outOfBounds := by
  induction entries generalizing cells with
  | nil =>
      have goesOn : hitsEof chunk = false := by simp [hitsEof, full]
      have nothing : cells.drop (chunk.length + 1) = [] := by
        rw [full]
        exact List.drop_eq_nil_of_le (Nat.le_of_eq size)
      have storedFree : Free '\n' (storeChunk cells chunk) := by
        rw [storeChunk, nothing, free_append]
        exact ⟨free, free_cons.mpr ⟨by decide, free_nil '\n'⟩⟩
      rw [List.map_nil, List.nil_append, indexChunks, goesOn, splitEntry_error storedFree]
      rfl
  | cons entry entries induction =>
      have held := fit entry (by simp)
      have others := fun other member => fit other (List.mem_cons_of_mem entry member)
      rw [List.map_cons, List.cons_append, indexChunks, hitsEof_line,
        if_neg Bool.false_ne_true, splitEntry_storeChunk]
      simp only [Except.bind]
      rw [induction ?_ others]
      have lengths : entry.line.length = entry.name.length + entry.data.length + 2 := by
        simp only [Entry.line, List.length_append, List.length_cons, List.length_nil]
        omega
      simp only [List.length_append, List.length_cons, List.length_drop]
      omega

theorem exists_first_long {entries : List Entry}
    (long : ∃ entry ∈ entries, pwlineSize ≤ entry.line.length) :
    ∃ before entry after, entries = before ++ entry :: after ∧
      (∀ other ∈ before, other.line.length < pwlineSize) ∧
      pwlineSize ≤ entry.line.length := by
  induction entries with
  | nil => simp at long
  | cons head tail induction =>
      by_cases held : head.line.length < pwlineSize
      · have later : ∃ entry ∈ tail, pwlineSize ≤ entry.line.length := by
          rcases long with ⟨entry, member, long⟩
          rcases List.mem_cons.mp member with rfl | member
          · exact absurd held (Nat.not_lt.mpr long)
          · exact ⟨entry, member, long⟩
        rcases induction later with ⟨before, entry, after, rfl, fit, long⟩
        exact ⟨head :: before, entry, after, rfl, List.forall_mem_cons.mpr ⟨held, fit⟩, long⟩
      · exact ⟨[], head, tail, rfl, by simp, Nat.le_of_not_lt held⟩

/-- A long line behind lines that fit takes `make_vpasswd_cdb` out of its buffer. -/
theorem makeVpasswdCdb_error_behind (pwline : Pwline) {before : List Entry}
    (fit : ∀ entry ∈ before, entry.line.length < pwlineSize) {entry : Entry}
    (long : pwlineSize ≤ entry.line.length) (rest : List Char) :
    makeVpasswdCdb pwline (vpasswdText before ++ (entry.line ++ rest)) = .error .outOfBounds := by
  have lines : ∀ line ∈ before.map Entry.line, IsLine line ∧ line.length < pwlineSize := by
    intro line member
    rcases List.mem_map.mp member with ⟨other, otherMember, rfl⟩
    exact ⟨other.isLine, fit other otherMember⟩
  have bodyFree : Free '\n' (entry.name ++ ':' :: entry.data) := by
    rw [free_append, free_cons]
    exact ⟨entry.name_plain.2.1, by decide, entry.data_free_newline⟩
  have bodyLong : pwlineSize - 1 ≤ (entry.name ++ ':' :: entry.data).length := by
    simp only [Entry.line, List.length_append, List.length_cons, List.length_nil] at long ⊢
    omega
  have split : entry.line ++ rest = (entry.name ++ ':' :: entry.data) ++ '\n' :: rest := by
    simp [Entry.line]
  rw [makeVpasswdCdb, vpasswdText, split, fgetsLoop_lines_append (by decide) lines,
    fgetsLoop_long (by decide) bodyFree bodyLong]
  apply indexChunks_append_error pwline.property fit
  · exact fun member => bodyFree (List.mem_of_mem_take member)
  · rw [List.length_take]
    exact Nat.min_eq_left bodyLong

/-- The first long line takes `make_vpasswd_cdb` out of its buffer. -/
theorem makeVpasswdCdb_error (pwline : Pwline) {entries : List Entry}
    (long : ∃ entry ∈ entries, pwlineSize ≤ entry.line.length) :
    makeVpasswdCdb pwline (vpasswdText entries) = .error .outOfBounds := by
  rcases exists_first_long long with ⟨before, entry, after, rfl, fit, long⟩
  have text : vpasswdText (before ++ entry :: after) =
      vpasswdText before ++ (entry.line ++ vpasswdText after) := by
    simp [vpasswdText]
  rw [text]
  exact makeVpasswdCdb_error_behind pwline fit long _

/-! ## Results on files whose lines fit -/

/-- The domain exists, and the process may read its files. -/
def Site.Reads (site : Site) : Prop :=
  ∃ dir uid, site.assign = some (dir, uid) ∧ site.owns uid = true

theorem lookup_pairs (entries : List Entry) (name : List Char) :
    (entries.map Entry.pair).lookup name =
      (entries.find? fun entry => entry.name = name).map Entry.data := by
  induction entries with
  | nil => rfl
  | cons entry entries induction =>
      by_cases equal : entry.name = name
      · simp [Entry.pair, equal]
      · have different : (name == entry.name) = false := by simpa using Ne.symm equal
        simp [Entry.pair, List.lookup_cons, different, equal, ← induction]

/-- The record that `auth_getpw` reports for a line. -/
def Entry.found (entry : Entry) (site : Site) : Vqpasswd :=
  vlimitsSetflags site (entry.record (some (entry.clear.getD [])))

/-- The record that `auth_getall` reports for a line. -/
def Entry.listed (entry : Entry) (site : Site) : Vqpasswd :=
  vlimitsSetflags site
    (entry.record (if site.build.clearPass then some (entry.clear.getD []) else none))

theorem authGetpw_of_opened {site : Site} (reads : site.Reads) {files : Files}
    {entries : List Entry} (opened : openIndex site files = some (.ok (entries.map Entry.pair)))
    (user : List Char) :
    authGetpw site files user =
      .ok ((entries.find? fun entry => entry.name = lowerit user).map (·.found site)) := by
  rcases reads with ⟨dir, uid, assigned, owned⟩
  simp only [authGetpw, assigned, owned, opened, Except.bind, lookup_pairs]
  cases first : entries.find? fun entry => entry.name = lowerit user with
  | none => rfl
  | some entry =>
      have named : entry.name = lowerit user := by simpa using List.find?_some first
      simp only [Option.map_some, ← named, parseLine_entry]
      rfl

theorem authGetpw_eq {site : Site} (reads : site.Reads) {files : Files}
    {entries : List Entry} (indexed : files.cdb = some (entries.map Entry.pair))
    (user : List Char) :
    authGetpw site files user =
      .ok ((entries.find? fun entry => entry.name = lowerit user).map (·.found site)) := by
  apply authGetpw_of_opened reads
  rw [openIndex, indexed]

/-- A record that is found has the name that was looked up. -/
theorem authGetpw_name {site : Site} {files : Files} {user : List Char} {pw : Vqpasswd}
    (plain : Free ':' (lowerit user)) (found : authGetpw site files user = .ok (some pw)) :
    pw.pwName = lowerit user := by
  rw [authGetpw] at found
  split at found
  · cases found
  · split at found
    · cases found
    · split at found
      · cases found
      · next index _ =>
          cases index with
          | error fault => cases found
          | ok pairs =>
              simp only [Except.bind] at found
              split at found
              · cases found
              · next data _ =>
                  cases parsed : parseLine (lowerit user ++ ':' :: data) with
                  | error fault =>
                      rw [parsed] at found
                      cases found
                  | ok record =>
                      rw [parsed] at found
                      cases found
                      simp only [parseLine, cut_append_cons plain] at parsed
                      rcases bind_eq_ok parsed with ⟨uid, _, rest⟩
                      rcases bind_eq_ok rest with ⟨gid, _, whole⟩
                      cases whole
                      rfl

theorem vgetentLoop_lines (build : Build) (entries : List Entry) :
    vgetentLoop build (entries.map Entry.line) = entries.map fun entry =>
      entry.record (if build.clearPass then some (entry.clear.getD []) else none) := by
  induction entries with
  | nil => rfl
  | cons entry entries induction =>
      simp only [List.map_cons, vgetentLoop, vgetentLine_entry, induction]

theorem authGetall_eq {site : Site} {files : Files} {entries : List Entry}
    (text : files.vpasswd = vpasswdText entries)
    (fit : ∀ entry ∈ entries, entry.line.length < maxBuff) :
    authGetall site files = entries.map (·.listed site) := by
  rw [authGetall, text, fgetsLoop_vpasswdText fit, vgetentLoop_lines, List.map_map]
  rfl

/-! ## Found records -/

/-- An index that is there was made from the text as it is. -/
def Files.Fresh (files : Files) : Prop :=
  ∀ index, files.cdb = some index → ∃ pwline, makeVpasswdCdb pwline files.vpasswd = .ok index

theorem makeVpasswdCdb_eq_ok {pwline : Pwline} {entries : List Entry} {index : Index}
    (made : makeVpasswdCdb pwline (vpasswdText entries) = .ok index) :
    (∀ entry ∈ entries, entry.line.length < pwlineSize) ∧ index = entries.map Entry.pair := by
  have fit : ∀ entry ∈ entries, entry.line.length < pwlineSize := by
    intro entry member
    by_contra long
    rw [makeVpasswdCdb_error pwline ⟨entry, member, Nat.le_of_not_lt long⟩] at made
    cases made
  rw [makeVpasswdCdb_vpasswdText pwline fit] at made
  exact ⟨fit, (Except.ok.inj made).symm⟩

theorem openIndex_of_authGetpw {site : Site} {files : Files} {user : List Char}
    {pw : Vqpasswd} (found : authGetpw site files user = .ok (some pw)) :
    site.Reads ∧ ∃ index, openIndex site files = some (.ok index) := by
  rw [authGetpw] at found
  split at found
  · cases found
  · rename_i dir uid assigned
    split at found
    · cases found
    · rename_i owned
      refine ⟨⟨dir, uid, assigned, by simpa using owned⟩, ?_⟩
      cases opened : openIndex site files with
      | none => simp [opened] at found
      | some index =>
          cases index with
          | error fault => simp [opened, Except.bind] at found
          | ok index => exact ⟨index, rfl⟩

theorem openIndex_fresh {site : Site} {files : Files} {entries : List Entry} {index : Index}
    (fresh : files.Fresh) (text : files.vpasswd = vpasswdText entries)
    (opened : openIndex site files = some (.ok index)) :
    (∀ entry ∈ entries, entry.line.length < pwlineSize) ∧ index = entries.map Entry.pair := by
  rw [openIndex] at opened
  split at opened
  · rename_i stored given
    cases opened
    rcases fresh _ given with ⟨pwline, made⟩
    exact makeVpasswdCdb_eq_ok (text ▸ made)
  · split at opened
    · cases opened
    · exact makeVpasswdCdb_eq_ok (text ▸ Option.some.inj opened)

/-- A record that is found belongs to a line of the file, all of whose lines fit. -/
theorem authGetpw_found {site : Site} {files : Files} {entries : List Entry}
    {user : List Char} {pw : Vqpasswd} (fresh : files.Fresh)
    (text : files.vpasswd = vpasswdText entries)
    (found : authGetpw site files user = .ok (some pw)) :
    (∀ entry ∈ entries, entry.line.length < pwlineSize) ∧
      ∃ entry, entries.find? (fun entry => entry.name = lowerit user) = some entry ∧
        pw = entry.found site := by
  rcases openIndex_of_authGetpw found with ⟨reads, index, opened⟩
  rcases openIndex_fresh fresh text opened with ⟨fit, rfl⟩
  refine ⟨fit, ?_⟩
  rw [authGetpw_of_opened reads opened, Except.ok.injEq, Option.map_eq_some_iff] at found
  rcases found with ⟨entry, first, rfl⟩
  exact ⟨entry, first, rfl⟩

/-! ## Agreement -/

/-- Lookup and enumeration of the files agree: each of the `users` is found with the record that
his line is listed with, and nobody is found who is not listed. -/
structure LookupAgrees (site : Site) (files : Files) (users : List (List Char)) : Prop where
  same : ∀ user ∈ users, ∃ pw, authGetpw site files user = .ok (some pw) ∧
    (authGetall site files).find? (fun pw => pw.pwName = user) = some pw
  listed : ∀ user pw, authGetpw site files user = .ok (some pw) →
    pw ∈ authGetall site files

theorem Entry.listed_eq_found (entry : Entry) {site : Site}
    (clearPass : site.build.clearPass = true) : entry.listed site = entry.found site := by
  rw [Entry.listed, if_pos clearPass]
  rfl

theorem find_listed (entries : List Entry) (site : Site) (user : List Char) :
    (entries.map (·.listed site)).find? (fun pw => pw.pwName = user) =
      (entries.find? fun entry => entry.name = user).map (·.listed site) := by
  rw [List.find?_map]
  rfl

section Agreement

variable {site : Site} {files : Files} {entries : List Entry}

theorem lookupAgrees_of_lower (reads : site.Reads)
    (text : files.vpasswd = vpasswdText entries)
    (indexed : files.cdb = some (entries.map Entry.pair))
    (fits : ∀ entry ∈ entries, entry.line.length < maxBuff)
    (lower : ∀ entry ∈ entries, lowerit entry.name = entry.name)
    (clear : site.build.clearPass = true ∨ entries = []) :
    LookupAgrees site files (entries.map Entry.name) := by
  have get := fun user => authGetpw_eq reads indexed user
  have all : authGetall site files = entries.map (·.listed site) := authGetall_eq text fits
  have listedFound : ∀ entry ∈ entries, entry.listed site = entry.found site := by
    intro entry member
    rcases clear with clearPass | empty
    · exact entry.listed_eq_found clearPass
    · simp [empty] at member
  constructor
  · intro user member
    rcases List.mem_map.mp member with ⟨entry, entryMember, rfl⟩
    rcases Option.isSome_iff_exists.mp (List.find?_isSome.mpr
      ⟨entry, entryMember, by simp⟩ :
        (entries.find? fun other => other.name = entry.name).isSome) with ⟨first, found⟩
    have firstMember := List.mem_of_find?_eq_some found
    refine ⟨first.found site, ?_, ?_⟩
    · rw [get, lower entry entryMember, found]
      rfl
    · rw [all, find_listed, found, Option.map_some, listedFound first firstMember]
  · intro user pw answered
    rw [get, Except.ok.injEq, Option.map_eq_some_iff] at answered
    rcases answered with ⟨entry, found, rfl⟩
    have member := List.mem_of_find?_eq_some found
    rw [all, ← listedFound entry member]
    exact List.mem_map_of_mem member

theorem LookupAgrees.lower_and_clear (reads : site.Reads)
    (text : files.vpasswd = vpasswdText entries)
    (indexed : files.cdb = some (entries.map Entry.pair))
    (fits : ∀ entry ∈ entries, entry.line.length < maxBuff)
    (agrees : LookupAgrees site files (entries.map Entry.name)) :
    ∀ entry ∈ entries, lowerit entry.name = entry.name ∧ site.build.clearPass = true := by
  have get := fun user => authGetpw_eq reads indexed user
  have all : authGetall site files = entries.map (·.listed site) := authGetall_eq text fits
  intro entry member
  rcases agrees.same entry.name (List.mem_map_of_mem member) with ⟨pw, answered, first⟩
  rw [get, Except.ok.injEq, Option.map_eq_some_iff] at answered
  rw [all, find_listed, Option.map_eq_some_iff] at first
  rcases answered with ⟨found, foundFirst, rfl⟩
  rcases first with ⟨listed, listedFirst, same⟩
  have foundName : found.name = lowerit entry.name := by
    simpa using List.find?_some foundFirst
  have listedName : listed.name = entry.name := by
    simpa using List.find?_some listedFirst
  constructor
  · rw [← foundName, ← listedName]
    exact (congrArg Vqpasswd.pwName same).symm
  · have clear := congrArg Vqpasswd.pwClearPasswd same
    cases clearPass : site.build.clearPass with
    | true => rfl
    | false => simp [Entry.listed, Entry.found, vlimitsSetflags, Entry.record, clearPass] at clear

end Agreement

/-- The files with an index made from their lines. -/
def Files.ofEntries (entries : List Entry) : Files :=
  ⟨vpasswdText entries, some (entries.map Entry.pair)⟩

theorem fresh_ofEntries (pwline : Pwline) {entries : List Entry}
    (fits : ∀ entry ∈ entries, entry.line.length < pwlineSize) :
    (Files.ofEntries entries).Fresh := by
  rintro index ⟨⟩
  exact ⟨pwline, makeVpasswdCdb_vpasswdText pwline fits⟩

/-- `make_vpasswd_cdb` keeps to its buffers on a file with short lines, and only there. -/
theorem install_eq_ok_iff {site : Site} (makesIndex : site.noMakeIndex = false) (files : Files)
    (entries : List Entry) (after : Files) :
    files.install site (vpasswdText entries) = .ok after ↔
      (∀ entry ∈ entries, entry.line.length < pwlineSize) ∧ after = .ofEntries entries := by
  rw [Files.install, makesIndex, if_neg Bool.false_ne_true]
  constructor
  · intro installed
    rcases map_eq_ok installed with ⟨index, made, rfl⟩
    rcases makeVpasswdCdb_eq_ok made with ⟨fits, rfl⟩
    exact ⟨fits, rfl⟩
  · rintro ⟨fits, rfl⟩
    rw [makeVpasswdCdb_vpasswdText site.pwline fits]
    rfl

/-- On well-formed files `make_vpasswd_cdb` keeps to its buffers, and lookup and enumeration
agree afterwards, exactly when every line takes at most 255 characters, every name is one that
lower-casing leaves alone, and the build is one in which `vgetent` sets the clear password. -/
theorem lookupAgrees_iff (site : Site) (reads : site.Reads)
    (makesIndex : site.noMakeIndex = false) (files : Files) (entries : List Entry) :
    (∃ after, files.install site (vpasswdText entries) = .ok after ∧
        LookupAgrees site after (entries.map Entry.name)) ↔
      (∀ entry ∈ entries, entry.line.length ≤ 255 ∧ lowerit entry.name = entry.name) ∧
        (site.build.clearPass = true ∨ entries = []) := by
  constructor
  · rintro ⟨after, installed, agrees⟩
    rcases (install_eq_ok_iff makesIndex files entries after).mp installed with ⟨short, rfl⟩
    have fits : ∀ entry ∈ entries, entry.line.length < maxBuff := fun entry member =>
      Nat.lt_trans (short entry member) (by decide)
    have lowerClear := agrees.lower_and_clear reads rfl rfl fits
    refine ⟨fun entry member =>
      ⟨Nat.le_of_lt_succ (short entry member), (lowerClear entry member).1⟩, ?_⟩
    cases entries with
    | nil => exact .inr rfl
    | cons entry entries => exact .inl (lowerClear entry (by simp)).2
  · intro holds
    have short : ∀ entry ∈ entries, entry.line.length < pwlineSize := fun entry member =>
      Nat.lt_succ_of_le (holds.1 entry member).1
    refine ⟨_, (install_eq_ok_iff makesIndex files entries _).mpr ⟨short, rfl⟩, ?_⟩
    exact lookupAgrees_of_lower reads rfl rfl
      (fun entry member => Nat.lt_trans (short entry member) (by decide))
      (fun entry member => (holds.1 entry member).2) holds.2

/-! ## A line within all limits that leaves the buffer -/

/-- The domain `example.com` in a build with `CLEAR_PASS`, served by root. -/
def exampleCom : Site where
  build := { clearPass := true, usersBigDir := true }
  noMakeIndex := false
  euid := 0
  domain := "example.com".toList
  assign := some ("/domains/example.com".toList, 89)
  vpopmailDirDomains := "/domains".toList
  filesOpen := true
  limitsFlags := some 0
  pwline := ⟨List.replicate pwlineSize nul, List.length_replicate⟩

theorem exampleCom_reads : exampleCom.Reads := ⟨_, _, rfl, rfl⟩

theorem exampleCom_makesIndex : exampleCom.noMakeIndex = false := rfl

def bobLine : Entry where
  name := "bob".toList
  passwd := "x".toList
  uid := "1".toList
  gid := "0".toList
  gecos := "Bob".toList
  dir := "/domains/example.com/bob".toList
  shell := "NOQUOTA".toList
  clear := some "secret".toList
  plain := by decide
  clearFree := by decide

theorem lookupAgrees_bobLine :
    ∃ after, Files.install ⟨[], none⟩ exampleCom (vpasswdText [bobLine]) = .ok after ∧
      LookupAgrees exampleCom after ["bob".toList] :=
  (lookupAgrees_iff exampleCom exampleCom_reads exampleCom_makesIndex ⟨[], none⟩ [bobLine]).mpr
    ⟨by decide, .inl rfl⟩

/-- A directory of 160 and a clear password of 100 characters. -/
def longLine : Entry where
  name := "bob".toList
  passwd := "x".toList
  uid := "0".toList
  gid := "0".toList
  gecos := "bob".toList
  dir := '/' :: List.replicate 159 'd'
  shell := "NOQUOTA".toList
  clear := some (List.replicate 100 'c')
  plain := by decide
  clearFree := by decide

/-- The record of the line passes `vcheck_vqpw`, and `make_vpasswd_cdb` leaves its buffer. -/
theorem longLine_not_lookupAgrees :
    vcheckVqpw exampleCom.build (longLine.found exampleCom) exampleCom.domain = .success ∧
      makeVpasswdCdb exampleCom.pwline (vpasswdText [longLine]) = .error .outOfBounds ∧
      ¬∃ after, Files.install ⟨[], none⟩ exampleCom (vpasswdText [longLine]) = .ok after ∧
        LookupAgrees exampleCom after ["bob".toList] := by
  refine ⟨by decide +kernel, by decide +kernel, ?_⟩
  rintro ⟨after, installed, _⟩
  have short := ((install_eq_ok_iff exampleCom_makesIndex _ [longLine] after).mp installed).1
    longLine (List.mem_singleton_self longLine)
  exact absurd short (by decide +kernel)

end Vpopmail.Vcdb

import Vpopmail.Vusaged.Vdb

/-! # The records of a snapshot

A record that was saved is read back in front of any rest, so a load applies the records
of the file one by one. A save succeeds when every record fits its fields.
-/

namespace Vpopmail.Vusaged.Vdb

open Records Text

/-! ## Records -/

theorem loadStat_append (st : Stat) (rest : List Char) :
    loadStat (st.val ++ rest) = some (st, rest) := by
  have taken : (st.val ++ rest).take statSize = st.val := List.take_left' st.property
  rw [loadStat, dif_pos (by rw [taken, st.property])]
  simp only [taken, List.drop_left' st.property]

theorem loadPw_savePw {pw : Option Vqpasswd} {cells : List Char}
    (saved : savePw pw = some cells) : ∃ entry, pw = some entry ∧
      ∀ rest, loadPw (cells ++ rest) = some (entry, rest) := by
  simp only [savePw, Option.bind_eq_bind, Option.bind_eq_some_iff, Option.some.injEq] at saved
  rcases saved with ⟨name, wroteName, passwd, wrotePasswd, uid, wroteUid, gid, wroteGid, flags,
    wroteFlags, gecos, wroteGecos, dir, wroteDir, shell, wroteShell, clear, wroteClear, same⟩
  cases pw with
  | none => cases wroteUid
  | some entry =>
      refine ⟨entry, rfl, fun rest => ?_⟩
      cases wroteUid
      cases wroteGid
      cases wroteFlags
      subst same
      simp only [loadPw, Option.bind_eq_bind, List.append_assoc, readText_writeText wroteName,
        readText_writeText wrotePasswd, readText_writeText wroteGecos,
        readText_writeText wroteDir, readText_writeText wroteShell,
        readText_writeText wroteClear, readWord_wordCells, Option.bind_some]
      rfl

theorem loadDirectory_saveDirectory (directory : Directory) (cells : List Char)
    (saved : saveDirectory directory = some cells) (rest : List Char)
    (directories : List Directory) : loadDirectory (cells ++ rest) directories =
      (some (directories ++ [directory])).map (·, rest) := by
  simp only [saveDirectory, Option.bind_eq_bind, Option.bind_eq_some_iff,
    Option.some.injEq] at saved
  rcases saved with ⟨path, wrote, same⟩
  subst same
  simp only [loadDirectory, Option.bind_eq_bind, List.append_assoc, readText_writeText wrote,
    readWord_wordCells, loadStat_append, Option.bind_some, Option.map_some]

/-- What stands in the file for the userstore of a user. -/
def savedStore (u : User) : Userstore :=
  ⟨u.home, (u.userstore.map Userstore.st).getD emptyStat,
    (u.userstore.map Userstore.lastUpdated).getD 0, (u.userstore.map Userstore.timeTaken).getD 0,
    (u.userstore.map Userstore.lastauth).getD 0, (u.userstore.map Userstore.usage).getD 0,
    (u.userstore.map Userstore.count).getD 0, (u.userstore.map Userstore.directories).getD []⟩

theorem toNat_toInt_ofNat {count : Nat} (small : count < 2 ^ 31) :
    (BitVec.ofNat (8 * 4) count).toInt.toNat = count := by
  rw [BitVec.toInt_eq_toNat_of_lt (by rw [BitVec.toNat_ofNat]; omega), BitVec.toNat_ofNat]
  omega

theorem loadUserstore_saveUserstore {u : User} {cells : List Char}
    (counted : (savedStore u).directories.length < 2 ^ 31)
    (saved : saveUserstore u.userstore = some cells) (rest : List Char) :
    loadUserstore u.home (cells ++ rest) = some (savedStore u, rest) := by
  simp only [saveUserstore, Option.bind_eq_bind, Option.bind_eq_some_iff,
    Option.some.injEq] at saved
  rcases saved with ⟨directories, wrote, same⟩
  subst same
  have collected := readEach_writeEach
    (fun directory _ => loadDirectory_saveDirectory directory) wrote rest []
  rw [applyEach_collect, List.nil_append, Option.map_some] at collected
  have count := toNat_toInt_ofNat counted
  rw [savedStore] at count
  dsimp only at count
  simp only [loadUserstore, Option.bind_eq_bind, List.append_assoc, readWord_wordCells,
    loadStat_append, Option.bind_some, count, collected]
  rfl

/-! ## A load applies its records -/

/-- What one record of a domain does to the daemon. -/
def restoreDomain (d : Domain) (daemon : Daemon) : Option Daemon :=
  (daemon.domainLoad d.domain).map fun (place, daemon) => daemon.setTotals place d.usage d.count

theorem loadDomain_saveDomain (d : Domain) (cells : List Char)
    (saved : saveDomain d = some cells) (rest : List Char) (daemon : Daemon) :
    loadDomain (cells ++ rest) daemon = (restoreDomain d daemon).map (·, rest) := by
  simp only [saveDomain, Option.bind_eq_bind, Option.bind_eq_some_iff, Option.some.injEq] at saved
  rcases saved with ⟨name, wrote, same⟩
  subst same
  simp only [loadDomain, Option.bind_eq_bind, List.append_assoc, readText_writeText wrote,
    readWord_wordCells, Option.bind_some, restoreDomain]
  cases daemon.domainLoad d.domain with
  | none => rfl
  | some loaded => rfl

/-- What one record of a user does to the daemon, when `domains` were saved with it. -/
def restoreUser (domains : List Domain) (u : User) (daemon : Daemon) : Option Daemon :=
  domains[u.domain]?.bind fun d => (daemon.domainLoad d.domain).bind fun (place, daemon) =>
    daemon.userUserlistAdd { u with domain := place, userstore := some (savedStore u) }

theorem loadUser_saveUser {domains : List Domain} (u : User) (cells : List Char)
    (counted : (savedStore u).directories.length < 2 ^ 31)
    (saved : saveUser domains u = some cells) (rest : List Char) (daemon : Daemon) :
    loadUser (cells ++ rest) daemon = (restoreUser domains u daemon).map (·, rest) := by
  simp only [saveUser, Option.bind_eq_bind, Option.bind_eq_some_iff, Option.some.injEq] at saved
  rcases saved with ⟨d, placed, user, wroteUser, name, wroteName, home, wroteHome, pw, savedPw,
    store, savedStores, same⟩
  subst same
  rcases loadPw_savePw savedPw with ⟨entry, present, loaded⟩
  simp only [loadUser, Option.bind_eq_bind, List.append_assoc, readText_writeText wroteUser,
    readText_writeText wroteName, readText_writeText wroteHome, Option.bind_some, loaded,
    loadUserstore_saveUserstore counted savedStores, restoreUser, placed]
  cases daemon.domainLoad d.domain with
  | none => rfl
  | some found =>
      simp only [Option.bind_some, ← present]
      cases found.2.userUserlistAdd
          { u with domain := found.1, userstore := some (savedStore u) } with
      | none => rfl
      | some after => rfl

/-! ## The whole file -/

/-- What holds in every daemon: the lists are shorter than their counters, the name of a user
ends in front of the `@` of its address, a user points at a domain of the list, and a
userstore was loaded from the home of its user. -/
structure Valid (daemon : Daemon) : Prop where
  domainsCounted : daemon.domains.length < 2 ^ 64
  usersCounted : daemon.users.length < 2 ^ 64
  named : ∀ u ∈ daemon.users, u.user.val ≠ [] ∧ Free '@' u.user.val
  placed : ∀ u ∈ daemon.users, u.domain < daemon.domains.length
  stored : ∀ u ∈ daemon.users, ∀ store, u.userstore = some store →
    store.path = u.home ∧ store.directories.length < 2 ^ 31

theorem Valid.counted {daemon : Daemon} (valid : Valid daemon) {u : User}
    (member : u ∈ daemon.users) : (savedStore u).directories.length < 2 ^ 31 := by
  rw [savedStore]
  cases stored : u.userstore with
  | none => exact Nat.two_pow_pos 31
  | some store => exact (valid.stored u member store stored).2

/-- The daemon that the records of another one build. -/
def restore (daemon : Daemon) : Option Daemon :=
  (applyEach restoreDomain daemon.domains.reverse Daemon.empty).bind
    (applyEach (restoreUser daemon.domains) daemon.users.reverse)

theorem vdbLoad_vdbSave {daemon : Daemon} (valid : Valid daemon) {file : List Char}
    (saved : vdbSave daemon = some file) : vdbLoad file = restore daemon := by
  simp only [vdbSave, Option.bind_eq_bind, Option.bind_eq_some_iff, Option.some.injEq] at saved
  rcases saved with ⟨domains, wroteDomains, users, wroteUsers, same⟩
  subst same
  have counts : ∀ {length : Nat}, length < 2 ^ 64 →
      (BitVec.ofNat (8 * 8) length).toNat = length :=
    fun small => by rw [BitVec.toNat_ofNat, Nat.mod_eq_of_lt small]
  have readDomains := readEach_writeEach (fun d _ => loadDomain_saveDomain d) wroteDomains users
    Daemon.empty
  have readUsers := fun loaded => readEach_writeEach
    (fun u member cells => loadUser_saveUser u cells (valid.counted (List.mem_reverse.mp member)))
    wroteUsers [] loaded
  rw [List.length_reverse] at readDomains
  simp only [List.length_reverse, List.append_nil] at readUsers
  have id : ∀ rest, readCells 3 (headerId ++ rest) = some (headerId, rest) :=
    readCells_append rfl
  have version : ∀ rest, readCells 1 ([headerVersion] ++ rest) = some ([headerVersion], rest) :=
    readCells_append rfl
  have padding : ∀ rest, readCells 4 (List.replicate 4 nul ++ rest) =
      some (List.replicate 4 nul, rest) := readCells_append rfl
  simp only [vdbLoad, saveHeader, Option.bind_eq_bind, List.append_assoc, id, version, padding,
    readWord_wordCells, Option.bind_some, counts valid.domainsCounted,
    counts valid.usersCounted, and_self, if_true, readDomains, restore]
  cases applyEach restoreDomain daemon.domains.reverse Daemon.empty with
  | none => rfl
  | some loaded =>
      simp only [Option.map_some, Option.bind_some, readUsers]
      cases applyEach (restoreUser daemon.domains) daemon.users.reverse loaded with
      | none => rfl
      | some after => rfl

/-! ## Fields that fit -/

structure PwFits (pw : Vqpasswd) : Prop where
  name : pw.pwName.val.length < userMaxUsername
  passwd : pw.pwPasswd.val.length < maxPwPass
  gecos : pw.pwGecos.val.length < maxPwGecos
  dir : pw.pwDir.val.length < pathMax
  shell : pw.pwShell.val.length < pathMax
  clear : pw.pwClearPasswd.val.length < maxPwPass

/-- What `vdb_save` asks of a user, besides the name of its domain. -/
structure UserFits (u : User) : Prop where
  user : u.user.val.length < userMaxUsername
  home : u.home.val.length < pathMax
  pw : ∃ pw, u.pw = some pw ∧ PwFits pw
  directories : ∀ directory ∈ (savedStore u).directories,
    directory.directory.val.length < pathMax

theorem exists_savePw {pw : Option Vqpasswd} :
    (∃ cells, savePw pw = some cells) ↔ ∃ entry, pw = some entry ∧ PwFits entry := by
  constructor
  · rintro ⟨cells, saved⟩
    rcases loadPw_savePw saved with ⟨entry, rfl, _⟩
    simp only [savePw, savePwText, Option.bind_eq_bind, Option.bind_eq_some_iff,
      Option.map_some, Option.getD_some] at saved
    rcases saved with ⟨name, wroteName, passwd, wrotePasswd, uid, _, gid, _, flags, _, gecos,
      wroteGecos, dir, wroteDir, shell, wroteShell, clear, wroteClear, _⟩
    exact ⟨entry, rfl, exists_writeText.mp ⟨name, wroteName⟩,
      exists_writeText.mp ⟨passwd, wrotePasswd⟩, exists_writeText.mp ⟨gecos, wroteGecos⟩,
      exists_writeText.mp ⟨dir, wroteDir⟩, exists_writeText.mp ⟨shell, wroteShell⟩,
      exists_writeText.mp ⟨clear, wroteClear⟩⟩
  · rintro ⟨entry, rfl, fits⟩
    rcases exists_writeText.mpr fits.name with ⟨name, wroteName⟩
    rcases exists_writeText.mpr fits.passwd with ⟨passwd, wrotePasswd⟩
    rcases exists_writeText.mpr fits.gecos with ⟨gecos, wroteGecos⟩
    rcases exists_writeText.mpr fits.dir with ⟨dir, wroteDir⟩
    rcases exists_writeText.mpr fits.shell with ⟨shell, wroteShell⟩
    rcases exists_writeText.mpr fits.clear with ⟨clear, wroteClear⟩
    simp only [savePw, savePwText, savePwWord, Option.bind_eq_bind, Option.map_some,
      Option.getD_some, wroteName, wrotePasswd, wroteGecos, wroteDir, wroteShell, wroteClear,
      Option.bind_some]
    exact ⟨_, rfl⟩

theorem exists_saveDirectory {directory : Directory} :
    (∃ cells, saveDirectory directory = some cells) ↔
      directory.directory.val.length < pathMax := by
  rw [← exists_writeText]
  constructor
  · rintro ⟨cells, saved⟩
    rcases Option.bind_eq_some_iff.mp saved with ⟨path, wrote, _⟩
    exact ⟨path, wrote⟩
  · rintro ⟨path, wrote⟩
    simp only [saveDirectory, Option.bind_eq_bind, wrote, Option.bind_some]
    exact ⟨_, rfl⟩

theorem exists_saveUserstore {u : User} : (∃ cells, saveUserstore u.userstore = some cells) ↔
    ∀ directory ∈ (savedStore u).directories, directory.directory.val.length < pathMax := by
  simp only [← exists_saveDirectory, ← exists_writeEach]
  constructor
  · rintro ⟨cells, saved⟩
    rcases Option.bind_eq_some_iff.mp saved with ⟨directories, wrote, _⟩
    exact ⟨directories, wrote⟩
  · rintro ⟨directories, wrote⟩
    rw [savedStore] at wrote
    dsimp only at wrote
    simp only [saveUserstore, Option.bind_eq_bind, wrote, Option.bind_some]
    exact ⟨_, rfl⟩

theorem exists_saveUser {domains : List Domain} {u : User} {d : Domain}
    (placed : domains[u.domain]? = some d) (short : d.domain.val.length < domainMaxDomain) :
    (∃ cells, saveUser domains u = some cells) ↔ UserFits u := by
  constructor
  · rintro ⟨cells, saved⟩
    simp only [saveUser, Option.bind_eq_bind, Option.bind_eq_some_iff] at saved
    rcases saved with ⟨_, _, user, wroteUser, _, _, home, wroteHome, pw, savedPw, store,
      savedStores, _⟩
    exact ⟨exists_writeText.mp ⟨user, wroteUser⟩, exists_writeText.mp ⟨home, wroteHome⟩,
      exists_savePw.mp ⟨pw, savedPw⟩, exists_saveUserstore.mp ⟨store, savedStores⟩⟩
  · intro fits
    rcases exists_writeText.mpr fits.user with ⟨user, wroteUser⟩
    rcases exists_writeText.mpr short with ⟨name, wroteName⟩
    rcases exists_writeText.mpr fits.home with ⟨home, wroteHome⟩
    rcases exists_savePw.mpr fits.pw with ⟨pw, savedPw⟩
    rcases exists_saveUserstore.mpr fits.directories with ⟨store, savedStores⟩
    simp only [saveUser, Option.bind_eq_bind, placed, wroteUser, wroteName, wroteHome, savedPw,
      savedStores, Option.bind_some]
    exact ⟨_, rfl⟩

theorem exists_saveDomain {d : Domain} :
    (∃ cells, saveDomain d = some cells) ↔ d.domain.val.length < domainMaxDomain := by
  rw [← exists_writeText]
  constructor
  · rintro ⟨cells, saved⟩
    rcases Option.bind_eq_some_iff.mp saved with ⟨name, wrote, _⟩
    exact ⟨name, wrote⟩
  · rintro ⟨name, wrote⟩
    simp only [saveDomain, Option.bind_eq_bind, wrote, Option.bind_some]
    exact ⟨_, rfl⟩

/-- A save succeeds when every record fits. -/
theorem exists_vdbSave {daemon : Daemon} (valid : Valid daemon) :
    (∃ file, vdbSave daemon = some file) ↔
      (∀ d ∈ daemon.domains, d.domain.val.length < domainMaxDomain) ∧
        ∀ u ∈ daemon.users, UserFits u := by
  have split : (∃ file, vdbSave daemon = some file) ↔
      (∃ cells, writeEach saveDomain daemon.domains.reverse = some cells) ∧
        ∃ cells, writeEach (saveUser daemon.domains) daemon.users.reverse = some cells := by
    constructor
    · rintro ⟨file, saved⟩
      simp only [vdbSave, Option.bind_eq_bind, Option.bind_eq_some_iff] at saved
      rcases saved with ⟨domains, wroteDomains, users, wroteUsers, _⟩
      exact ⟨⟨domains, wroteDomains⟩, users, wroteUsers⟩
    · rintro ⟨⟨domains, wroteDomains⟩, users, wroteUsers⟩
      simp only [vdbSave, Option.bind_eq_bind, wroteDomains, wroteUsers, Option.bind_some]
      exact ⟨_, rfl⟩
  rw [split]
  simp only [exists_writeEach, exists_saveDomain, List.mem_reverse]
  apply and_congr_right
  intro short
  apply forall₂_congr
  intro u member
  have placed := List.getElem?_eq_getElem (valid.placed u member)
  exact exists_saveUser placed (short _ (List.getElem_mem _))

end Vpopmail.Vusaged.Vdb

import Vpopmail.Vmysql.Accounts

/-! # Converting a domain

When the accounts of a domain survive the conversions of `vconvert`.
-/

namespace Vpopmail

open Text Vpopmail.Stream Vcdb

/-! ## From SQL to `vpasswd` -/

section Printing

variable {build : Build}

/-- The texts of a record that are printed. -/
def printedTexts (build : Build) (pw : Vqpasswd) : List (List Char) :=
  [pw.pwName, pw.pwPasswd, pw.pwGecos, pw.pwDir, pw.pwShell] ++
    if build.clearPass then [pw.pwClearPasswd.getD []] else []

/-- The texts that end in a delimiter when they are printed. -/
structure Delimited (pw : Vqpasswd) : Prop where
  name : Free ':' pw.pwName
  passwd : Free ':' pw.pwPasswd
  gecos : Free ':' pw.pwGecos
  dir : Free ':' pw.pwDir
  shell : Free ':' pw.pwShell

/-- How much of the line of a record must be read: neither the newline nor the delimiter in
front of an empty clear password matters. -/
def recordNeeded (build : Build) (pw : Vqpasswd) : Nat :=
  (vpasswdLine build pw).length - 1 -
    if build.clearPass && (pw.pwClearPasswd.getD []).isEmpty then 1 else 0

/-- The condition: only the clear password has delimiters, and the lines fit. -/
structure PrintsBack (build : Build) (accounts : List Vqpasswd) : Prop where
  delimited : ∀ pw ∈ accounts, Delimited pw
  fit : LinesFit (fun pw => (vpasswdLine build pw).length) (recordNeeded build) accounts

theorem free_cut (text : List Char) : Free ':' (cut ':' text).1 := by
  rcases free_or_eq_append_cons ':' text with free | ⟨field, rest, free, rfl⟩
  · rw [cut_of_free free]
    exact free
  · rw [cut_append_cons free]
    exact free

/-- No field that is read holds a delimiter. -/
theorem delimited_of_vgetentLine {chunk : List Char} {pw : Vqpasswd}
    (ran : vgetentLine build chunk = some pw) : Delimited pw := by
  rw [vgetentLine] at ran
  split at ran
  · cases ran
  · simp only [Option.some.injEq] at ran
    subst ran
    refine ⟨free_cut _, free_cut _, free_cut _, free_cut _, fun member => ?_⟩
    have stops := List.mem_takeWhile_imp member
    simp at stops

theorem delimited_of_mem {text : List Char} {pw : Vqpasswd}
    (member : pw ∈ vgetentFile build text) : Delimited pw := by
  rw [vgetentFile] at member
  generalize fgetsLoop maxBuff text = chunks at member
  induction chunks with
  | nil => cases member
  | cons chunk chunks induction =>
      rw [vgetentLoop] at member
      cases ran : vgetentLine build chunk with
      | none =>
          rw [ran] at member
          cases member
      | some first =>
          rw [ran] at member
          rcases List.mem_cons.mp member with rfl | later
          · exact delimited_of_vgetentLine ran
          · exact induction later

theorem plainRecord_of_delimited {pw : Vqpasswd}
    (unbroken : ∀ text ∈ printedTexts build pw, Free '\n' text ∧ Free nul text)
    (delimited : Delimited pw) : PlainRecord build pw where
  name := ⟨delimited.name, unbroken _ (by simp [printedTexts])⟩
  passwd := ⟨delimited.passwd, unbroken _ (by simp [printedTexts])⟩
  gecos := ⟨delimited.gecos, unbroken _ (by simp [printedTexts])⟩
  dir := ⟨delimited.dir, unbroken _ (by simp [printedTexts])⟩
  shell := ⟨delimited.shell, unbroken _ (by simp [printedTexts])⟩
  clear := fun clearPass => unbroken _ (by simp [printedTexts, clearPass])

theorem read_printed {pw : Vqpasswd} (plain : PlainRecord build pw) :
    (printed plain).read build = storedRecord build pw := by
  rw [Entry.read, record_printed, storedRecord]
  cases clearPass : build.clearPass <;> simp [printed, clearPass]

theorem suits_printed {pw : Vqpasswd} (plain : PlainRecord build pw) :
    (printed plain).Suits build := by
  intro none_kept
  change (if build.clearPass then some (pw.pwClearPasswd.getD []) else none) = none
  rw [none_kept]
  rfl

theorem needed_printed {pw : Vqpasswd} (plain : PlainRecord build pw) :
    (printed plain).needed = recordNeeded build pw := by
  rw [Entry.needed, recordNeeded, vpasswdLine_eq_line plain]
  congr 1
  cases clearPass : build.clearPass <;> simp [printed, clearPass, List.isEmpty_iff]

theorem linesFit_map {Line Other : Type} (change : Other → Line) (size needed : Line → Nat)
    (lines : List Other) :
    LinesFit size needed (lines.map change) ↔
      LinesFit (fun line => size (change line)) (fun line => needed (change line)) lines := by
  induction lines with
  | nil => exact Iff.rfl
  | cons line lines induction =>
      cases lines with
      | nil => exact Iff.rfl
      | cons next lines => exact and_congr_right fun _ => induction

/-- The lines of plain records are entries. -/
theorem exists_entries {accounts : List Vqpasswd}
    (plain : ∀ pw ∈ accounts, PlainRecord build pw) :
    ∃ entries : List Entry, (∀ entry ∈ entries, entry.Suits build) ∧
      vpasswdText entries = (accounts.map (vpasswdLine build)).flatten ∧
      entries.map (·.read build) = accounts.map (storedRecord build) ∧
      (EntriesFit entries ↔
        LinesFit (fun pw => (vpasswdLine build pw).length) (recordNeeded build) accounts) := by
  have values {Value : Type} (ofEntry : Entry → Value) (ofRecord : Vqpasswd → Value)
      (same : ∀ pw, ∀ own : PlainRecord build pw, ofEntry (printed own) = ofRecord pw) :
      (accounts.attach.map fun pw => printed (plain pw.1 pw.2)).map ofEntry =
        accounts.map ofRecord := by
    rw [List.map_map, ← List.attach_map_val (l := accounts) (f := ofRecord)]
    congr 1
    funext pw
    exact same pw.1 _
  refine ⟨accounts.attach.map fun pw => printed (plain pw.1 pw.2), ?_, ?_, ?_, ?_⟩
  · intro entry member
    rcases List.mem_map.mp member with ⟨pw, _, rfl⟩
    exact suits_printed _
  · rw [vpasswdText, values Entry.line (vpasswdLine build)
      fun pw own => (vpasswdLine_eq_line own).symm]
  · exact values _ _ fun pw own => read_printed own
  · rw [EntriesFit, linesFit_map]
    have sizes : (fun pw : { pw // pw ∈ accounts } => (printed (plain pw.1 pw.2)).line.length) =
        fun pw => (vpasswdLine build pw.1).length := by
      funext pw
      rw [vpasswdLine_eq_line]
    have needs : (fun pw : { pw // pw ∈ accounts } => (printed (plain pw.1 pw.2)).needed) =
        fun pw => recordNeeded build pw.1 := by
      funext pw
      exact needed_printed _
    have whole := linesFit_map Subtype.val (fun pw => (vpasswdLine build pw).length)
      (recordNeeded build) accounts.attach
    rw [List.attach_map_subtype_val] at whole
    rw [sizes, needs, whole]

/-- The records are read back from what `sql_to_cdb` prints of them. -/
theorem vgetentFile_printed_iff {accounts : List Vqpasswd}
    (unbroken : ∀ pw ∈ accounts, ∀ text ∈ printedTexts build pw, Free '\n' text ∧ Free nul text) :
    vgetentFile build (accounts.map (vpasswdLine build)).flatten =
        accounts.map (storedRecord build) ↔ PrintsBack build accounts := by
  have fit_iff (delimited : ∀ pw ∈ accounts, Delimited pw) :
      vgetentFile build (accounts.map (vpasswdLine build)).flatten =
          accounts.map (storedRecord build) ↔
        LinesFit (fun pw => (vpasswdLine build pw).length) (recordNeeded build) accounts := by
    rcases exists_entries fun pw member =>
      plainRecord_of_delimited (unbroken pw member) (delimited pw member) with
      ⟨entries, suit, text, records, fit⟩
    rw [← text, ← records, vgetentFile_iff suit, fit]
  constructor
  · intro same
    have delimited : ∀ pw ∈ accounts, Delimited pw := by
      intro pw member
      have found : storedRecord build pw ∈
          vgetentFile build (accounts.map (vpasswdLine build)).flatten := by
        rw [same]
        exact List.mem_map_of_mem member
      have stored := delimited_of_mem found
      exact ⟨stored.name, stored.passwd, stored.gecos, stored.dir, stored.shell⟩
    exact ⟨delimited, (fit_iff delimited).mp same⟩
  · exact fun printsBack => (fit_iff printsBack.delimited).mpr printsBack.fit

end Printing

/-! ## From `vpasswd` to the default backend -/

section Importing

variable {build : Build} {domain : List Char} {Store : Type}
  (backend : AuthBackend build domain Store)

/-- What is left of a record that `vcheck_vqpw` admits is admitted. -/
theorem admitted_of_truncates {short long : Entry} (truncates : Truncates short long)
    (admitted : vcheckVqpw build (long.read build) domain = .success) :
    vcheckVqpw build (short.read build) domain = .success := by
  rw [vcheckVqpw_eq_success_iff] at admitted ⊢
  have shell : short.shell.length ≤ long.shell.length := by
    rcases truncates.tail with ⟨_, front⟩ | ⟨same, _⟩
    · exact front.length_le
    · rw [same]
  have clear : (short.clear.getD []).length ≤ (long.clear.getD []).length := by
    rcases truncates.tail with ⟨ended, _⟩ | ⟨_, kept, whole, given, given_whole, front⟩
    · rw [ended]
      exact Nat.zero_le _
    · rw [given, given_whole]
      exact front.length_le
  have name : (short.read build).pwName = (long.read build).pwName := truncates.name
  have passwd : (short.read build).pwPasswd = (long.read build).pwPasswd := truncates.passwd
  have gecos : (short.read build).pwGecos = (long.read build).pwGecos := truncates.gecos
  have dir : (short.read build).pwDir = (long.read build).pwDir := truncates.dir
  constructor
  · intro clearPass
    simp [Entry.read, Entry.record, clearPass]
  · exact name ▸ admitted.name
  · exact name ▸ admitted.nameOfDir
  · exact admitted.domain
  · exact passwd ▸ admitted.passwd
  · exact gecos ▸ admitted.gecos
  · exact dir ▸ admitted.dir
  · exact Nat.le_trans shell admitted.shell
  · intro clearPass
    have limit := admitted.clear clearPass
    simp only [Entry.read, Entry.record, if_pos clearPass, Option.getD_some] at limit ⊢
    exact Nat.le_trans clear limit

/-- What is left of a record that a backend keeps in this form has its texts in front. -/
theorem eq_of_keep_eq {columns : Columns} {short long : Entry} (truncates : Truncates short long)
    (same : columns.keep build (short.read build) = long.read build) :
    short.read build = long.read build := by
  have shorter : short.shell <+: long.shell := by
    rcases truncates.tail with ⟨_, front⟩ | ⟨same, _⟩
    · exact front
    · rw [same]
  have kept : long.shell = columns.shell.val short.shell :=
    (congrArg Vqpasswd.pwShell same).symm
  have shell : short.shell = long.shell :=
    shorter.eq_of_length_le (kept ▸ (columns.shell.property short.shell).length_le)
  have clear : build.clearPass = true → short.clear.getD [] = long.clear.getD [] := by
    intro clearPass
    have stored : columns.clear.val (short.clear.getD []) = long.clear.getD [] := by
      have texts := congrArg Vqpasswd.pwClearPasswd same
      simpa [Columns.keep, storedRecord, Entry.read, Entry.record, clearPass] using texts
    have back : long.clear.getD [] <+: short.clear.getD [] :=
      stored ▸ columns.clear.property (short.clear.getD [])
    rcases truncates.tail with ⟨ended, _⟩ | ⟨_, clear, whole, given, given_whole, front⟩
    · rw [ended] at back ⊢
      exact (List.prefix_nil.mp back).symm
    · rw [given, given_whole] at back ⊢
      exact front.eq_of_length_le back.length_le
  cases clearPass : build.clearPass with
  | true => simp [Entry.read, Entry.record, truncates.name, truncates.passwd, truncates.uid,
      truncates.gid, truncates.gecos, truncates.dir, shell, clear clearPass, clearPass]
  | false => simp [Entry.read, Entry.record, truncates.name, truncates.passwd, truncates.uid,
      truncates.gid, truncates.gecos, truncates.dir, shell, clearPass]

/-- The record of a new user is stored as the columns keep it. -/
theorem accounts_importEntry {pw : Vqpasswd} {pws : List Vqpasswd} {store : Store}
    (succeeds : backend.Succeeds (pw :: pws) store)
    (admitted : vcheckVqpw build pw domain = .success) (fresh : backend.NewUser pw.pwName store) :
    backend.accounts (backend.importEntry store pw) =
      backend.columns.keep build pw ::ₘ backend.accounts store := by
  have short := ((vcheckVqpw_eq_success_iff build pw domain).mp admitted).name
  rcases succeeds.1 admitted with ⟨adds, writes⟩
  have code := adds fresh
  rcases backend.adduser_new pw.pwName pw.pwPasswd pw.pwGecos pw.pwDir pw.pwUid.toInt store short
    fresh code with ⟨account, name, added⟩
  have own : backend.columns.key account.pwName = backend.columns.key pw.pwName := by
    rw [name, backend.columns.key_name pw.pwName short]
  have others : ((backend.accounts store).map fun account =>
      if backend.columns.key account.pwName = backend.columns.key pw.pwName then
        { backend.columns.keep build pw with pwName := account.pwName }
      else account) = backend.accounts store := by
    rw [Multiset.map_congr rfl fun account member => if_neg (fresh account member),
      Multiset.map_id']
  have written : { backend.columns.keep build pw with pwName := account.pwName } =
      backend.columns.keep build pw := by
    rw [name]
    rfl
  rw [AuthBackend.importEntry, if_neg (not_not.mpr code),
    backend.setpw_admitted pw _ admitted (writes code), AuthBackend.adduserOf, added,
    Multiset.map_cons, if_pos own, written, others]

/-- The keys of the names. -/
def nameKeys (backend : AuthBackend build domain Store) (pws : List Vqpasswd) :
    List (List Char) :=
  pws.map fun pw => backend.columns.key pw.pwName

/-- Records of different new users are stored as the columns keep them. -/
theorem import_accounts {pws : List Vqpasswd} {store : Store}
    (succeeds : backend.Succeeds pws store)
    (admitted : ∀ pw ∈ pws, vcheckVqpw build pw domain = .success)
    (distinct : (nameKeys backend pws).Nodup)
    (fresh : ∀ pw ∈ pws, backend.NewUser pw.pwName store) :
    backend.accounts (backend.importEntries pws store) =
      backend.accounts store + ↑(pws.map (backend.columns.keep build)) := by
  induction pws generalizing store with
  | nil => simp [AuthBackend.importEntries]
  | cons pw pws induction =>
      rw [nameKeys, List.map_cons, List.nodup_cons] at distinct
      have own := admitted pw List.mem_cons_self
      have short := ((vcheckVqpw_eq_success_iff build pw domain).mp own).name
      have accounts := accounts_importEntry backend succeeds own (fresh pw List.mem_cons_self)
      have fresh_after : ∀ other ∈ pws,
          backend.NewUser other.pwName (backend.importEntry store pw) := by
        intro other member account known same
        rw [accounts, Multiset.mem_cons] at known
        rcases known with rfl | old
        · rw [show (backend.columns.keep build pw).pwName = backend.columns.name.val pw.pwName
            from rfl, backend.columns.key_name pw.pwName short] at same
          exact distinct.1 (List.mem_map.mpr ⟨other, member, same.symm⟩)
        · exact fresh other (List.mem_cons_of_mem _ member) account old same
      have later := induction succeeds.2
        (fun other member => admitted other (List.mem_cons_of_mem _ member)) distinct.2 fresh_after
      rw [AuthBackend.importEntries] at later ⊢
      rw [List.foldl_cons, later, accounts, List.map_cons, Multiset.cons_add, ← Multiset.cons_coe,
        Multiset.add_cons]

theorem succeeds_append {front pws : List Vqpasswd} {store : Store}
    (succeeds : backend.Succeeds (front ++ pws) store) :
    backend.Succeeds front store ∧ backend.Succeeds pws (backend.importEntries front store) := by
  induction front generalizing store with
  | nil => exact ⟨trivial, succeeds⟩
  | cons pw front induction =>
      rcases induction succeeds.2 with ⟨first, rest⟩
      exact ⟨⟨succeeds.1, first⟩, rest⟩

/-- No account is touched again when users are not added twice. -/
theorem import_keeps (refuses : backend.RefusesExisting) (pws : List Vqpasswd) {store : Store}
    {account : Vqpasswd} (known : account ∈ backend.accounts store) :
    account ∈ backend.accounts (backend.importEntries pws store) := by
  induction pws generalizing store with
  | nil => exact known
  | cons pw pws induction =>
      have kept : account ∈ backend.accounts (backend.adduserOf pw store).2 :=
        backend.adduser_keeps pw.pwName pw.pwPasswd pw.pwGecos pw.pwDir pw.pwUid.toInt store
          account known
      rw [AuthBackend.importEntries, List.foldl_cons]
      apply induction
      rw [AuthBackend.importEntry]
      split
      · exact kept
      · rename_i added
        rcases Classical.em (vcheckVqpw build pw domain = .success) with admitted | refused
        · have short := ((vcheckVqpw_eq_success_iff build pw domain).mp admitted).name
          have other : backend.columns.key account.pwName ≠ backend.columns.key pw.pwName :=
            fun same => added (refuses _ _ _ _ _ store short fun fresh =>
              fresh account known same)
          exact backend.setpw_keeps pw _ account kept other
        · rw [backend.setpw_refused pw _ refused]
          exact kept

variable {entries : List Entry} {store : Store}

/-- The entries of a file become the accounts, as the columns keep them. -/
theorem import_entries
    (succeeds : backend.Succeeds (entries.map (·.read build)) store)
    (admitted : ∀ entry ∈ entries, vcheckVqpw build (entry.read build) domain = .success)
    (distinct : (entries.map fun entry => backend.columns.key entry.name).Nodup)
    (none_known : backend.accounts store = 0) :
    backend.accounts (backend.importEntries (entries.map (·.read build)) store) =
      ↑(entries.map fun entry => backend.columns.keep build (entry.read build)) := by
  have names : nameKeys backend (entries.map (·.read build)) =
      entries.map fun entry => backend.columns.key entry.name := by
    rw [nameKeys, List.map_map]
    rfl
  rw [import_accounts backend succeeds _ (names ▸ distinct), none_known, Multiset.zero_add,
    List.map_map]
  · rfl
  · intro pw _ account known
    rw [none_known] at known
    cases known
  · intro pw member
    rcases List.mem_map.mp member with ⟨entry, inside, rfl⟩
    exact admitted entry inside

/-- The condition: no two names are one key, the columns keep every field, and the lines fit. -/
structure Importable (build : Build) (columns : Columns) (entries : List Entry) : Prop where
  distinct : (entries.map fun entry => columns.key entry.name).Nodup
  kept : ∀ entry ∈ entries, columns.keep build (entry.read build) = entry.read build
  fit : EntriesFit entries

theorem import_file (suit : ∀ entry ∈ entries, entry.Suits build)
    (succeeds : backend.Succeeds (vgetentFile build (vpasswdText entries)) store)
    (admitted : ∀ entry ∈ entries, vcheckVqpw build (entry.read build) domain = .success)
    (none_known : backend.accounts store = 0)
    (importable : Importable build backend.columns entries) :
    backend.accounts (backend.importEntries (vgetentFile build (vpasswdText entries)) store) =
      ↑(entries.map (·.read build)) := by
  have whole := (vgetentFile_iff suit).mpr importable.fit
  rw [whole] at succeeds ⊢
  rw [import_entries backend succeeds admitted importable.distinct none_known,
    List.map_congr_left importable.kept]

/-- What is stored for a line, or for the front of it, has the key of its name. -/
theorem key_keep {entry short : Entry}
    (admitted : vcheckVqpw build (entry.read build) domain = .success)
    (same : short.name = entry.name) :
    backend.columns.key (backend.columns.keep build (short.read build)).pwName =
      backend.columns.key entry.name := by
  have fits := ((vcheckVqpw_eq_success_iff _ _ _).mp admitted).name
  change backend.columns.key (backend.columns.name.val short.name) = _
  rw [same]
  exact backend.columns.key_name entry.name fits

/-- The record of a line that is cut is added, since no line in front of it has its name, and
stays. -/
theorem shortened_stays (refuses : backend.RefusesExisting) {front rest : List Entry}
    {entry short : Entry} {later : List Vqpasswd}
    (succeeds : backend.Succeeds (front.map (·.read build) ++ short.read build :: later) store)
    (admitted : ∀ other ∈ front ++ entry :: rest,
      vcheckVqpw build (other.read build) domain = .success)
    (names : ((front ++ entry :: rest).map fun entry => backend.columns.key entry.name).Nodup)
    (none_known : backend.accounts store = 0) (truncates : Truncates short entry) :
    backend.columns.keep build (short.read build) ∈ backend.accounts
      (backend.importEntries (front.map (·.read build) ++ short.read build :: later) store) := by
  have member : entry ∈ front ++ entry :: rest := List.mem_append_right _ List.mem_cons_self
  rw [List.map_append, List.map_cons] at names
  rcases succeeds_append backend succeeds with ⟨first, after⟩
  have front_accounts := import_entries backend first
    (fun other inside => admitted other (List.mem_append_left _ inside))
    (List.Nodup.of_append_left names) none_known
  have fresh : backend.NewUser (short.read build).pwName
      (backend.importEntries (front.map (·.read build)) store) := by
    intro account known same
    rw [front_accounts, Multiset.mem_coe] at known
    rcases List.mem_map.mp known with ⟨other, inside, rfl⟩
    rw [key_keep backend (admitted other (List.mem_append_left _ inside)) rfl] at same
    rw [List.nodup_append] at names
    refine names.2.2 _ (List.mem_map_of_mem inside) _ List.mem_cons_self ?_
    exact same.trans (congrArg backend.columns.key truncates.name)
  have known := accounts_importEntry backend after
    (admitted_of_truncates truncates (admitted entry member)) fresh
  rw [AuthBackend.importEntries, List.foldl_append, List.foldl_cons]
  refine import_keeps backend refuses later ?_
  rw [AuthBackend.importEntries] at known
  rw [known]
  exact Multiset.mem_cons_self _ _

theorem importable_of_accounts (refuses : backend.RefusesExisting)
    (suit : ∀ entry ∈ entries, entry.Suits build)
    (succeeds : backend.Succeeds (vgetentFile build (vpasswdText entries)) store)
    (admitted : ∀ entry ∈ entries, vcheckVqpw build (entry.read build) domain = .success)
    (none_known : backend.accounts store = 0)
    (accounts : backend.accounts
        (backend.importEntries (vgetentFile build (vpasswdText entries)) store) =
      ↑(entries.map (·.read build))) : Importable build backend.columns entries := by
  have keyed := backend.keyed
    (backend.importEntries (vgetentFile build (vpasswdText entries)) store)
  have names : (entries.map fun entry => backend.columns.key entry.name).Nodup := by
    rw [accounts, Multiset.map_coe, Multiset.coe_nodup, List.map_map] at keyed
    exact keyed
  -- an account with the key of a line is what the line says
  have unique : ∀ entry ∈ entries, ∀ account ∈ backend.accounts
      (backend.importEntries (vgetentFile build (vpasswdText entries)) store),
      backend.columns.key account.pwName = backend.columns.key entry.name →
        account = entry.read build := by
    intro entry member account known same
    refine Multiset.inj_on_of_nodup_map keyed account known _ ?_ same
    rw [accounts, Multiset.mem_coe]
    exact List.mem_map_of_mem member
  cases reading_vpasswdText suit with
  | whole fit found =>
      refine ⟨names, fun entry member => ?_, fit⟩
      rw [found] at succeeds unique
      have stored := import_entries backend succeeds admitted names none_known
      refine unique entry member _ ?_ (key_keep backend (admitted entry member) rfl)
      rw [stored, Multiset.mem_coe]
      exact List.mem_map.mpr ⟨entry, member, rfl⟩
  | stopped _ front rest parts left found =>
      subst parts
      rw [List.map_append] at names
      rw [found] at succeeds
      have fewer := import_entries backend succeeds
        (fun entry member => admitted entry (List.mem_append_left rest member))
        (List.Nodup.of_append_left names) none_known
      rw [found, fewer] at accounts
      have sizes := congrArg Multiset.card accounts
      rw [Multiset.coe_card, Multiset.coe_card, List.length_map, List.length_map,
        List.length_append] at sizes
      have positive := List.length_pos_iff.mpr left
      omega
  | altered _ front rest entry short later parts truncates differs found =>
      subst parts
      have member : entry ∈ front ++ entry :: rest := List.mem_append_right _ List.mem_cons_self
      rw [found] at succeeds unique
      have kept := shortened_stays backend refuses succeeds admitted names none_known truncates
      have same := unique entry member _ kept
        (key_keep backend (admitted entry member) truncates.name)
      exact absurd (eq_of_keep_eq truncates same) differs

end Importing

/-! ## Both conversions -/

/-- `cdb_to_default` leaves one account for each line, with its fields. -/
def ImportsAll {build : Build} {domain : List Char} {Store : Type}
    (backend : AuthBackend build domain Store) (entries : List Entry) (store : Store) : Prop :=
  ∃ after, cdbToDefault backend true (some (vpasswdText entries)) store = (0, after) ∧
    backend.accounts after = ↑(entries.map (·.read build))

/-- The records of an SQL backend are read back from `vpasswd` when no field in front of the
clear password has a delimiter and the lines fit in the reader's buffer. The lines of a file
become the accounts of the default backend when no two names are one key in it, its columns keep
every field, and the lines fit. -/
theorem conversion_iff (build : Build) (domain : List Char) :
    (∀ (accounts : List Vqpasswd) (vpasswd : List Char),
      (∀ pw ∈ accounts, vcheckVqpw build pw domain = .success) →
      (∀ pw ∈ accounts, ∀ text ∈ printedTexts build pw, Free '\n' text ∧ Free nul text) →
      (vgetentFile build (sqlToCdb build true true accounts vpasswd).2 =
          accounts.map (storedRecord build) ↔
        PrintsBack build accounts)) ∧
    ∀ (Store : Type) (backend : AuthBackend build domain Store) (entries : List Entry)
      (store : Store),
      (∀ entry ∈ entries, entry.Suits build) →
      (∀ entry ∈ entries, vcheckVqpw build (entry.read build) domain = .success) →
      backend.Succeeds (vgetentFile build (vpasswdText entries)) (backend.reset store) →
      (Importable build backend.columns entries → ImportsAll backend entries store) ∧
        (backend.RefusesExisting →
          (ImportsAll backend entries store ↔ Importable build backend.columns entries)) := by
  constructor
  · intro accounts vpasswd _ unbroken
    exact vgetentFile_printed_iff unbroken
  · intro Store backend entries store suit admitted succeeds
    have cleared := backend.accounts_reset store
    have enough (importable : Importable build backend.columns entries) :
        ImportsAll backend entries store :=
      ⟨_, rfl, import_file backend suit succeeds admitted cleared importable⟩
    refine ⟨enough, fun refuses => ⟨?_, enough⟩⟩
    rintro ⟨after, ran, accounts⟩
    have same : backend.importEntries (vgetentFile build (vpasswdText entries))
      (backend.reset store) = after := congrArg Prod.snd ran
    rw [← same] at accounts
    exact importable_of_accounts backend refuses suit succeeds admitted cleared accounts

/-! ## A comment with a delimiter -/

/-- A build that keeps clear passwords, with a table for each domain. -/
def clearTables : Vpgsql.Build := ⟨false, true, false, false⟩

/-- A server that cuts long values off, and for which letters of both cases are the same. -/
def foldingServer : Vmysql.Server where
  strict := false
  collate := fun text => (Vmysql.unpadded text).map lowerChar
  collate_unpadded := by
    intro text
    rw [Vmysql.unpadded, Vmysql.unpadded, List.rdropWhile_idempotent]

/-- The backend for the domain `d` there. -/
def foldingBackend : AuthBackend ⟨true, false⟩ ['d'] (Vmysql.Users foldingServer clearTables ['d']) :=
  Vmysql.mysqlBackend foldingServer clearTables [] [] id (by decide) (by decide)

/-- The table of the domain with an account that the conversion drops. -/
def oldRows : Vmysql.Users foldingServer clearTables ['d'] :=
  ⟨Vpgsql.Tables.setUsers ⟨fun _ => none, none, false, none, none, none⟩
      (clearTables.userTable ['d'])
      [Vpgsql.passwordRow clearTables (bobLine.read ⟨true, false⟩) ['d']],
    _, .setUsers (List.nodup_singleton _)⟩

/-- Bob and Ann, whose clear password has a delimiter. -/
def bobAndAnn : List Entry :=
  [bobLine, { bobLine with
    name := "ann".toList
    gecos := "Ann B.".toList
    shell := "1000S".toList
    clear := some "a:b".toList
    plain := by decide
    clearFree := by decide }]

/-- Both are read back, and take the place of the account that was there. -/
theorem conversion_iff_bobAndAnn :
    vgetentFile ⟨true, false⟩ (sqlToCdb ⟨true, false⟩ true true
        (bobAndAnn.map (·.read ⟨true, false⟩)) []).2 =
          (bobAndAnn.map (·.read ⟨true, false⟩)).map (storedRecord ⟨true, false⟩) ∧
      ImportsAll foldingBackend bobAndAnn oldRows := by
  have both := conversion_iff ⟨true, false⟩ ['d']
  have fit : (bobAndAnn.getLast (by decide)).needed < maxBuff := by decide
  constructor
  · have delimited : ∀ pw ∈ bobAndAnn.map (·.read ⟨true, false⟩),
        Free ':' pw.pwName ∧ Free ':' pw.pwPasswd ∧ Free ':' pw.pwGecos ∧ Free ':' pw.pwDir ∧
          Free ':' pw.pwShell := by
      decide
    refine (both.1 _ _ (by decide +kernel) (by decide +kernel)).mpr ⟨?_, by decide, fit⟩
    intro pw member
    rcases delimited pw member with ⟨name, passwd, gecos, dir, shell⟩
    exact ⟨name, passwd, gecos, dir, shell⟩
  · have suit : ∀ entry ∈ bobAndAnn, entry.Suits ⟨true, false⟩ := by
      intro entry member none_kept
      cases none_kept
    have succeeds : ∀ pws users, foldingBackend.Succeeds pws users :=
      Vmysql.mysqlBackend_succeeds clearTables [] [] id _ _ rfl
    have refuses : foldingBackend.RefusesExisting :=
      Vmysql.mysqlBackend_refuses clearTables [] [] id _ _ foldingServer
    have imports := both.2 _ foldingBackend bobAndAnn oldRows suit (by decide +kernel)
    -- the records need not be computed
    generalize vgetentFile ⟨true, false⟩ (vpasswdText bobAndAnn) = pws at imports
    exact ((imports (succeeds pws _)).2 refuses).mpr ⟨by decide, by decide +kernel, by decide, fit⟩

/-- Bob with a delimiter in his comment. -/
def bobColon : Vqpasswd := { bobLine.read ⟨true, false⟩ with pwGecos := [':'] }

theorem conversion_loses :
    ¬ ∀ (build : Build) (domain : List Char) (accounts : List Vqpasswd) (vpasswd : List Char),
      (∀ pw ∈ accounts, vcheckVqpw build pw domain = .success) →
      (∀ pw ∈ accounts, ∀ text ∈ printedTexts build pw, Free '\n' text ∧ Free nul text) →
      vgetentFile build (sqlToCdb build true true accounts vpasswd).2 =
        accounts.map (storedRecord build) := by
  intro converts
  have same := converts ⟨true, false⟩ ['d'] [bobColon] [] (by decide +kernel) (by decide +kernel)
  exact absurd same (by decide +kernel)

end Vpopmail

import Vpopmail.RelayTable

/-! # Concurrent updates of the relay table

The lock of `open_smtp_relay` keeps logins apart, but `clearopensmtp` does not take it.
As long as nobody renames a file over one that was changed since it was read, every
entry of a completed login stays until it expires.
-/

namespace Vpopmail.Relay

open Vpopmail Text Vpopmail.Stream Buffer Interleaving Execution

/-! ## Invariants -/

/-- The contents of a file that no process will write to any more. -/
structure Held (files : RelayFiles) (inode : Nat) (content : List Char) : Prop where
  notTmp : files.tmp ≠ some inode
  there : files.inodes[inode]? = some content

/-- `open-smtp` is a table, and `open-smtp.tmp` another file. -/
structure WellFormed (files : RelayFiles) : Prop where
  tmpInside : ∀ inode, files.tmp = some inode → inode < files.inodes.length
  table : ∀ inode, files.cur = some inode →
    ∃ content entries, Held files inode content ∧ IsTable content entries

/-- The address has an entry unless the time has run out. -/
def Listed (clear : Nat) (files : RelayFiles) (ipaddr : List Char) (mytime : Nat) : Prop :=
  files.now < mytime + clear → Present files ipaddr mytime

/-- What the steps of a process leave to the others. -/
structure Rely (clear : Nat) (before after : RelayFiles) : Prop where
  later : before.now ≤ after.now
  held : ∀ inode content, Held before inode content → Held after inode content
  listed : ∀ ipaddr mytime, Listed clear before ipaddr mytime →
    Listed clear after ipaddr mytime

/-- What a process knows. -/
def Sound (clear : Nat) (files : RelayFiles) : Operation → Prop
  | .reading _ _ _ inode => ∃ content, Held files inode content
  | .replacing ipaddr mytime _ inode content written _ =>
      Held files inode content ∧ ∃ others rebuild,
        copyOthers ipaddr (fgetsLoop maxBuff content) = .ok (others, rebuild) ∧
          written = others ++ relayLine ipaddr mytime
  | .updating ipaddr mytime _ _ => Listed clear files ipaddr mytime
  | .completed ipaddr mytime => Listed clear files ipaddr mytime
  | .clearOpening mytime => mytime ≤ files.now
  | .clearCreating mytime inode => mytime ≤ files.now ∧ ∃ content, Held files inode content
  | .clearReading mytime inode _ => mytime ≤ files.now ∧ ∃ content, Held files inode content
  | .clearWriting mytime inode _ content => mytime ≤ files.now ∧ Held files inode content
  | .clearRenaming mytime inode _ content => mytime ≤ files.now ∧ Held files inode content
  | _ => True

section Rely

variable {clear : Nat} {before middle after files : RelayFiles}

theorem Rely.trans (first : Rely clear before middle) (second : Rely clear middle after) :
    Rely clear before after := by
  constructor
  · exact Nat.le_trans first.later second.later
  · intro inode content held
    exact second.held inode content (first.held inode content held)
  · intro ipaddr mytime listed
    exact second.listed ipaddr mytime (first.listed ipaddr mytime listed)

theorem Sound.stable (rely : Rely clear before after) {operation : Operation}
    (sound : Sound clear before operation) : Sound clear after operation := by
  cases operation with
  | reading ipaddr mytime holds inode =>
      rcases sound with ⟨content, held⟩
      exact ⟨content, rely.held _ _ held⟩
  | replacing ipaddr mytime holds inode content written rebuild =>
      exact ⟨rely.held _ _ sound.1, sound.2⟩
  | updating ipaddr mytime holds rebuild => exact rely.listed _ _ sound
  | completed ipaddr mytime => exact rely.listed _ _ sound
  | clearOpening mytime => exact Nat.le_trans sound rely.later
  | clearCreating mytime inode =>
      rcases sound with ⟨past, content, held⟩
      exact ⟨Nat.le_trans past rely.later, content, rely.held _ _ held⟩
  | clearReading mytime inode tmp =>
      rcases sound with ⟨past, content, held⟩
      exact ⟨Nat.le_trans past rely.later, content, rely.held _ _ held⟩
  | clearWriting mytime inode tmp content =>
      exact ⟨Nat.le_trans sound.1 rely.later, rely.held _ _ sound.2⟩
  | clearRenaming mytime inode tmp content =>
      exact ⟨Nat.le_trans sound.1 rely.later, rely.held _ _ sound.2⟩
  | _ => trivial

/-! ## Present entries -/

theorem Held.read {inode : Nat} {content : List Char} (held : Held files inode content) :
    files.read inode = content := by
  rw [RelayFiles.read, held.there]
  rfl

theorem relayLines_table {inode : Nat} {content : List Char} {entries : List RelayEntry}
    (named : files.cur = some inode) (held : Held files inode content)
    (table : IsTable content entries) :
    relayLines files = entries.map RelayEntry.line := by
  rw [relayLines, named]
  simp only
  rw [held.read, table.spelled, fgetsLoop_tableText]

theorem present_iff {inode : Nat} {content : List Char} {entries : List RelayEntry}
    (named : files.cur = some inode) (held : Held files inode content)
    (table : IsTable content entries) (ipaddr : List Char) (mytime : Nat) :
    Present files ipaddr mytime ↔
      ∃ entry ∈ entries, entry.ipaddr = ipaddr ∧ mytime ≤ entry.mytime := by
  rw [Present, relayLines_table named held table]
  constructor
  · intro present
    rcases present with ⟨line, member, address, fileTime, stamp, later⟩
    rcases List.mem_map.mp member with ⟨entry, entryMember, rfl⟩
    rw [entry.lineAddress_line] at address
    rw [entry.lineTime_line, Option.mem_def, Option.some.injEq] at stamp
    exact ⟨entry, entryMember, address, by omega⟩
  · intro listed
    rcases listed with ⟨entry, member, rfl, later⟩
    exact ⟨entry.line, List.mem_map_of_mem member, entry.lineAddress_line, entry.mytime,
      entry.lineTime_line, by omega⟩

theorem not_present (missing : files.cur = none) (ipaddr : List Char) (mytime : Nat) :
    ¬Present files ipaddr mytime := by
  intro present
  rcases present with ⟨line, member, _⟩
  rw [relayLines, missing] at member
  cases member

theorem WellFormed.once (wellFormed : WellFormed files) : OncePerAddress files := by
  rw [OncePerAddress]
  cases named : files.cur with
  | none =>
      rw [relayLines, named]
      exact List.nodup_nil
  | some inode =>
      rcases wellFormed.table inode named with ⟨content, entries, held, table⟩
      rw [relayLines_table named held table, map_lineAddress_lines]
      exact table.once

/-! ## Steps on the files -/

/-- `open-smtp` stays the file that it is. -/
theorem rely_of_kept (wellFormed : WellFormed before) (later : before.now ≤ after.now)
    (named : after.cur = before.cur)
    (held : ∀ inode content, Held before inode content → Held after inode content)
    (tmpInside : ∀ inode, after.tmp = some inode → inode < after.inodes.length) :
    WellFormed after ∧ Rely clear before after := by
  have same : ∀ ipaddr mytime, Present before ipaddr mytime → Present after ipaddr mytime := by
    intro ipaddr mytime present
    cases cur : before.cur with
    | none => exact absurd present (not_present cur ipaddr mytime)
    | some inode =>
        rcases wellFormed.table inode cur with ⟨content, entries, heldBefore, table⟩
        rw [present_iff cur heldBefore table] at present
        rwa [present_iff (named.trans cur) (held _ _ heldBefore) table]
  constructor
  · refine ⟨tmpInside, ?_⟩
    intro inode cur
    rcases wellFormed.table inode (named.symm.trans cur) with
      ⟨content, entries, heldBefore, table⟩
    exact ⟨content, entries, held _ _ heldBefore, table⟩
  · refine ⟨later, held, ?_⟩
    intro ipaddr mytime listed young
    exact same ipaddr mytime (listed (Nat.lt_of_le_of_lt later young))

/-- `open-smtp` becomes another file, which has all young entries of the old one. -/
theorem rely_of_replaced (before after : RelayFiles) (same : after.now = before.now)
    {inode : Nat} (named : after.cur = some inode) {content : List Char}
    (heldAfter : Held after inode content) {entries : List RelayEntry}
    (table : IsTable content entries)
    (held : ∀ inode content, Held before inode content → Held after inode content)
    (tmpInside : ∀ inode, after.tmp = some inode → inode < after.inodes.length)
    (kept : ∀ ipaddr mytime, before.now < mytime + clear → Present before ipaddr mytime →
      ∃ entry ∈ entries, entry.ipaddr = ipaddr ∧ mytime ≤ entry.mytime) :
    WellFormed after ∧ Rely clear before after := by
  constructor
  · refine ⟨tmpInside, ?_⟩
    intro other otherNamed
    rw [named, Option.some.injEq] at otherNamed
    rw [← otherNamed]
    exact ⟨content, entries, heldAfter, table⟩
  · refine ⟨Nat.le_of_eq same.symm, held, ?_⟩
    intro ipaddr mytime listed young
    rw [same] at young
    rw [present_iff named heldAfter table]
    exact kept ipaddr mytime young (listed young)

variable (clear) in
theorem rely_refl (wellFormed : WellFormed files) :
    WellFormed files ∧ Rely clear files files :=
  rely_of_kept wellFormed (Nat.le_refl _) rfl (fun _ _ held => held) wellFormed.tmpInside

variable (clear) in
theorem rely_wait (wellFormed : WellFormed files) (elapsed : Nat) :
    WellFormed (files.wait elapsed) ∧ Rely clear files (files.wait elapsed) :=
  rely_of_kept wellFormed (Nat.le_add_right _ _) rfl
    (fun _ _ held => ⟨held.notTmp, held.there⟩) wellFormed.tmpInside

variable (clear) in
theorem rely_lock (wellFormed : WellFormed files) (locked : Bool) :
    WellFormed { files with locked := locked } ∧
      Rely clear files { files with locked := locked } :=
  rely_of_kept wellFormed (Nat.le_refl _) rfl
    (fun _ _ held => ⟨held.notTmp, held.there⟩) wellFormed.tmpInside

theorem held_install {text : List Char} {inode : Nat} {content : List Char}
    (held : Held files inode content) : Held (files.install text) inode content := by
  refine ⟨held.notTmp, ?_⟩
  rw [RelayFiles.install, List.getElem?_append_left (List.getElem?_eq_some_iff.mp held.there).1]
  exact held.there

theorem held_installed (wellFormed : WellFormed files) (text : List Char) :
    Held (files.install text) files.inodes.length text := by
  constructor
  · intro same
    exact Nat.lt_irrefl _ (wellFormed.tmpInside _ same)
  · simp [RelayFiles.install]

variable (clear) in
theorem rely_install (wellFormed : WellFormed files) {text : List Char}
    {entries : List RelayEntry} (table : IsTable text entries)
    (kept : ∀ ipaddr mytime, files.now < mytime + clear → Present files ipaddr mytime →
      ∃ entry ∈ entries, entry.ipaddr = ipaddr ∧ mytime ≤ entry.mytime) :
    WellFormed (files.install text) ∧ Rely clear files (files.install text) := by
  have named : (files.install text).cur = some files.inodes.length := rfl
  apply rely_of_replaced files (files.install text) rfl named (held_installed wellFormed text) table
  · intro inode content held
    exact held_install held
  · intro inode there
    have inside := wellFormed.tmpInside inode there
    simp only [RelayFiles.install, List.length_append]
    omega
  · exact kept

/-- Changing the file that has the temporary name. -/
theorem held_change {inode tmp : Nat} {content text : List Char} (named : files.tmp = some tmp)
    (held : Held files inode content) :
    Held { files with inodes := files.inodes.set tmp text } inode content := by
  refine ⟨held.notTmp, ?_⟩
  have other : tmp ≠ inode := by
    intro same
    exact held.notTmp (same ▸ named)
  rw [List.getElem?_set_ne other]
  exact held.there

variable (clear) in
theorem rely_change (wellFormed : WellFormed files) {tmp : Nat} (named : files.tmp = some tmp)
    (text : List Char) :
    WellFormed { files with inodes := files.inodes.set tmp text } ∧
      Rely clear files { files with inodes := files.inodes.set tmp text } := by
  apply rely_of_kept wellFormed
  · exact Nat.le_refl _
  · rfl
  · intro inode content held
    exact held_change named held
  · intro inode there
    rw [List.length_set]
    exact wellFormed.tmpInside inode there

theorem write_eq (files : RelayFiles) (inode : Nat) (text : List Char) :
    files.write inode text = { files with
      inodes := files.inodes.set inode (text ++ (files.read inode).drop text.length) } := by
  rw [RelayFiles.write, RelayFiles.read, List.modify_eq_set]
  rfl

variable (clear) in
theorem rely_createTmp (wellFormed : WellFormed files) :
    WellFormed files.createTmp.1 ∧ Rely clear files files.createTmp.1 := by
  cases named : files.tmp with
  | none =>
      rw [RelayFiles.createTmp, named]
      apply rely_of_kept wellFormed
      · exact Nat.le_refl _
      · rfl
      · intro inode content held
        have inside := (List.getElem?_eq_some_iff.mp held.there).1
        constructor
        · intro same
          have equal := Option.some.inj same
          omega
        · rw [List.getElem?_append_left inside]
          exact held.there
      · intro inode there
        have equal := Option.some.inj there
        simp only [List.length_append, List.length_cons, List.length_nil]
        omega
  | some tmp =>
      have changed := rely_change clear wellFormed named []
      rw [RelayFiles.createTmp, named]
      simpa [named] using changed

/-- Taking the temporary name away keeps every file. -/
theorem rely_renameTmp (wellFormed : WellFormed files) {tmp : Nat}
    (named : files.tmp = some tmp) {entries : List RelayEntry}
    (table : IsTable (files.read tmp) entries)
    (kept : ∀ ipaddr mytime, files.now < mytime + clear → Present files ipaddr mytime →
      ∃ entry ∈ entries, entry.ipaddr = ipaddr ∧ mytime ≤ entry.mytime) :
    WellFormed files.renameTmp ∧ Rely clear files files.renameTmp := by
  have inside := wellFormed.tmpInside tmp named
  have renamed : files.renameTmp = { files with cur := some tmp, tmp := none } := by
    rw [RelayFiles.renameTmp, named]
  have there : files.inodes[tmp]? = some (files.read tmp) := by
    rw [RelayFiles.read, List.getElem?_eq_getElem inside]
    rfl
  have heldAfter : Held { files with cur := some tmp, tmp := none } tmp (files.read tmp) :=
    ⟨nofun, there⟩
  rw [renamed]
  apply rely_of_replaced files { files with cur := some tmp, tmp := none } rfl rfl heldAfter table
  · intro inode content held
    exact ⟨nofun, held.there⟩
  · exact nofun
  · exact kept

end Rely

/-! ## Steps of the processes -/

section Steps

variable {clear : Nat} {moment : Moment} {files after : RelayFiles} {next : Option Operation}

/-- What a step has to do. -/
structure Kept (clear : Nat) (files after : RelayFiles) (next : Option Operation) : Prop where
  wellFormed : WellFormed after
  rely : Rely clear files after
  sound : ∀ stepped ∈ next, Sound clear after stepped

theorem kept_of_rely (result : WellFormed after ∧ Rely clear files after) {stepped : Operation}
    (sound : Sound clear after stepped) : Kept clear files after (some stepped) := by
  refine ⟨result.1, result.2, ?_⟩
  intro other member
  rw [Option.mem_def, Option.some.injEq] at member
  rw [← member]
  exact sound

theorem kept_unlock (wellFormed : WellFormed files) (holds : Bool) {stepped : Operation}
    (sound : Sound clear files stepped) :
    Kept clear files (files.unlock holds) (some stepped) := by
  have rely := rely_lock clear wellFormed (files.locked && !holds)
  exact kept_of_rely rely (sound.stable rely.2)

theorem exists_held (wellFormed : WellFormed files) {inode : Nat}
    (named : files.cur = some inode) : ∃ content, Held files inode content := by
  rcases wellFormed.table inode named with ⟨content, _, held, _⟩
  exact ⟨content, held⟩

theorem kept_creating (wellFormed : WellFormed files) (missing : files.cur = none)
    {ipaddr : List Char} {mytime : Nat} {holds : Bool}
    (acted : act clear moment files (.creating ipaddr mytime holds) = some (after, next)) :
    Kept clear files after next := by
  rw [act] at acted
  split at acted
  · cases acted
    exact kept_unlock wellFormed holds trivial
  · rw [RelayFiles.createCur, missing] at acted
    cases acted
    refine kept_of_rely (rely_install clear wellFormed isTable_nil ?_) ?_
    · intro other time _ present
      exact absurd present (not_present missing other time)
    · exact ⟨[], held_installed wellFormed []⟩

theorem kept_reading (wellFormed : WellFormed files) {ipaddr : List Char} {mytime inode : Nat}
    {holds : Bool} (sound : Sound clear files (.reading ipaddr mytime holds inode))
    (acted : act clear moment files (.reading ipaddr mytime holds inode) = some (after, next)) :
    Kept clear files after next := by
  rcases sound with ⟨content, held⟩
  rw [act] at acted
  split at acted
  · cases acted
    exact kept_unlock wellFormed holds trivial
  · simp only [held.read] at acted
    split at acted
    · cases acted
    · rename_i others rebuild copied
      cases acted
      exact kept_of_rely (rely_refl clear wellFormed) ⟨held, others, rebuild, copied, rfl⟩

/-- The new file of `open_smtp_relay` has the address, and the young entries of others. -/
theorem kept_replacing (wellFormed : WellFormed files) {ipaddr : List Char}
    {mytime inode : Nat} {holds rebuild : Bool} {content written : List Char}
    (sound : Sound clear files
      (.replacing ipaddr mytime holds inode content written rebuild))
    (undisturbed : Undisturbed clear files
      (.replacing ipaddr mytime holds inode content written rebuild) moment)
    (acted : act clear moment files
      (.replacing ipaddr mytime holds inode content written rebuild) = some (after, next)) :
    Kept clear files after next := by
  rcases sound with ⟨held, others, found, copied, rfl⟩
  rcases undisturbed with ⟨relayable, inInt, named, notNewer⟩
  rcases wellFormed.table inode named with ⟨text, entries, heldText, table⟩
  have same : text = content := Option.some.inj (heldText.there.symm.trans held.there)
  subst same
  let entry : RelayEntry := ⟨ipaddr, mytime, relayable, inInt⟩
  rcases table.added entry with ⟨_, kept, again, tableAfter⟩
  rw [copied, Except.ok.injEq, Prod.mk.injEq] at again
  rw [← again.1] at tableAfter
  have young : ∀ other time, files.now < time + clear → Present files other time →
      ∃ listed ∈ (entries.filter fun listed => listed.ipaddr ≠ ipaddr) ++ [entry],
        listed.ipaddr = other ∧ time ≤ listed.mytime := by
    intro other time _ present
    rw [present_iff named heldText table] at present
    rcases present with ⟨listed, member, address, later⟩
    by_cases own : listed.ipaddr = ipaddr
    · refine ⟨entry, by simp, own.symm.trans address, ?_⟩
      have newest := notNewer listed.line ?_ (listed.lineAddress_line.trans own) listed.mytime
        listed.lineTime_line
      · have bound : (listed.mytime : Int) ≤ mytime := newest
        show time ≤ mytime
        omega
      · rw [table.spelled, fgetsLoop_tableText]
        exact List.mem_map_of_mem member
    · exact ⟨listed, by simp [member, own], address, later⟩
  have result := rely_install clear wellFormed tableAfter young
  rw [act, Option.some.injEq, Prod.mk.injEq] at acted
  rcases acted with ⟨rfl, rfl⟩
  refine kept_of_rely result ?_
  intro _
  have installed : (files.install (others ++ relayLine ipaddr mytime)).cur =
      some files.inodes.length := rfl
  rw [present_iff installed (held_installed wellFormed _) tableAfter]
  exact ⟨entry, by simp, rfl, Nat.le_refl _⟩

theorem kept_clearCreating (wellFormed : WellFormed files) {mytime inode : Nat}
    (sound : Sound clear files (.clearCreating mytime inode))
    (acted : act clear moment files (.clearCreating mytime inode) = some (after, next)) :
    Kept clear files after next := by
  rw [act] at acted
  split at acted
  · cases acted
    exact kept_of_rely (rely_refl clear wellFormed) trivial
  · cases acted
    have rely := rely_createTmp clear wellFormed
    have stable := sound.stable rely.2
    exact kept_of_rely rely stable

theorem kept_clearWriting (wellFormed : WellFormed files) {mytime inode tmp : Nat}
    {content : List Char} (sound : Sound clear files (.clearWriting mytime inode tmp content))
    (named : files.tmp = some tmp)
    (acted : act clear moment files (.clearWriting mytime inode tmp content) =
      some (after, next)) : Kept clear files after next := by
  rw [act, Option.some.injEq, Prod.mk.injEq] at acted
  rcases acted with ⟨rfl, rfl⟩
  rw [write_eq]
  have rely := rely_change clear wellFormed named
    (copyYoung clear mytime (fgetsLoop maxBuff content) ++
      (files.read tmp).drop (copyYoung clear mytime (fgetsLoop maxBuff content)).length)
  have stable := sound.stable rely.2
  exact kept_of_rely rely stable

/-- The new file of `clearopensmtp` has the young entries. -/
theorem kept_clearRenaming (wellFormed : WellFormed files) {mytime inode tmp : Nat}
    {content : List Char} (sound : Sound clear files (.clearRenaming mytime inode tmp content))
    (undisturbed : Undisturbed clear files (.clearRenaming mytime inode tmp content) moment)
    (acted : act clear moment files (.clearRenaming mytime inode tmp content) =
      some (after, next)) : Kept clear files after next := by
  rcases sound with ⟨past, held⟩
  rcases undisturbed with ⟨cur, named, written⟩
  rcases wellFormed.table inode cur with ⟨text, entries, heldText, table⟩
  have same : text = content := Option.some.inj (heldText.there.symm.trans held.there)
  subst same
  have tableAfter := table.cleared clear mytime
  rw [← written] at tableAfter
  rw [act, Option.some.injEq, Prod.mk.injEq] at acted
  rcases acted with ⟨rfl, rfl⟩
  refine kept_of_rely (rely_renameTmp wellFormed named tableAfter ?_) trivial
  intro other time young present
  rw [present_iff cur heldText table] at present
  rcases present with ⟨listed, member, address, later⟩
  refine ⟨listed, List.mem_filter.mpr ⟨member, ?_⟩, address, later⟩
  rw [decide_eq_true_eq]
  omega

theorem cur_of_opened {cur : Option Nat} {opened : Bool} {inode : Nat}
    (found : (if opened then cur else none) = some inode) : cur = some inode := by
  split at found
  · exact found
  · cases found

theorem kept_act (wellFormed : WellFormed files) {operation : Operation}
    (sound : Sound clear files operation) (undisturbed : Undisturbed clear files operation moment)
    (acted : act clear moment files operation = some (after, next)) :
    Kept clear files after next := by
  have idle := rely_refl clear wellFormed
  cases operation with
  | openSmtpRelay ipenv =>
      rw [act] at acted
      split at acted
      · cases acted
      · cases acted
        exact kept_of_rely idle trivial
      · cases acted
        exact kept_of_rely idle trivial
  | locking ipaddr mytime =>
      rw [act] at acted
      split at acted
      · cases acted
        exact kept_of_rely idle trivial
      · split at acted
        · cases acted
        · cases acted
          exact kept_of_rely (rely_lock clear wellFormed true) trivial
  | opening ipaddr mytime holds =>
      rw [act] at acted
      split at acted
      · cases acted
        exact kept_of_rely idle trivial
      · rename_i inode found
        cases acted
        have held := exists_held wellFormed (cur_of_opened found)
        exact kept_of_rely idle held
  | creating ipaddr mytime holds => exact kept_creating wellFormed undisturbed acted
  | reading ipaddr mytime holds inode => exact kept_reading wellFormed sound acted
  | replacing ipaddr mytime holds inode content written rebuild =>
      exact kept_replacing wellFormed sound undisturbed acted
  | updating ipaddr mytime holds rebuild =>
      rw [act] at acted
      split at acted
      · cases acted
        exact kept_unlock wellFormed holds trivial
      · cases acted
        have completed : Sound clear files (.completed ipaddr mytime) := sound
        exact kept_unlock wellFormed holds completed
  | completed ipaddr mytime => cases acted
  | returned ret => cases acted
  | clearopensmtp =>
      cases acted
      exact kept_of_rely idle (Nat.le_refl files.now)
  | clearOpening mytime =>
      rw [act] at acted
      split at acted
      · cases acted
        exact kept_of_rely idle trivial
      · rename_i inode found
        cases acted
        have held := exists_held wellFormed (cur_of_opened found)
        exact kept_of_rely idle ⟨sound, held⟩
  | clearCreating mytime inode => exact kept_clearCreating wellFormed sound acted
  | clearReading mytime inode tmp =>
      cases acted
      rcases sound with ⟨past, content, held⟩
      exact kept_of_rely idle ⟨past, held.read.symm ▸ held⟩
  | clearWriting mytime inode tmp content =>
      exact kept_clearWriting wellFormed sound undisturbed acted
  | clearRenaming mytime inode tmp content =>
      exact kept_clearRenaming wellFormed sound undisturbed acted
  | cleared => cases acted

end Steps

/-- In a run in which every process finds the files as it has read them when it renames its
own, the entries of all completed logins stay until they expire, and no address has two. -/
theorem relay_entries_kept {clear : Nat} {files : RelayFiles} (wellFormed : WellFormed files)
    {labels : List (Label Program Moment)} {finish : Pool RelayFiles Operation}
    (run : Run ((processes clear).GuardedStep (Undisturbed clear)) ⟨files, []⟩ labels finish) :
    OncePerAddress finish.shared ∧
      ∀ ipaddr mytime, .completed ipaddr mytime ∈ finish.running →
        finish.shared.now < mytime + clear → Present finish.shared ipaddr mytime := by
  have launched : ∀ files program, WellFormed files →
      Sound clear files ((processes clear).launch program) := by
    intro files program _
    cases program <;> exact trivial
  have kept := System.run_rely WellFormed (Rely clear) (Sound clear) launched
    (fun before after operation rely sound => sound.stable rely) ?_ wellFormed run
  · refine ⟨kept.1.once, ?_⟩
    intro ipaddr mytime member young
    exact kept.2 _ member young
  · intro moment files operation after next wellFormed sound undisturbed acted
    have waited := rely_wait clear wellFormed moment.elapsed
    have there : Undisturbed clear (files.wait moment.elapsed) operation moment := undisturbed
    have acts : act clear moment (files.wait moment.elapsed) operation = some (after, next) := acted
    have result := kept_act waited.1 (sound.stable waited.2) there acts
    exact ⟨result.wellFormed, waited.2.trans result.rely, result.sound⟩

/-! ## Runs -/

instance (ipaddr : List Char) : Decidable (Relayable ipaddr) :=
  decidable_of_iff
    (ipaddr ≠ [] ∧ Free ':' ipaddr ∧ Free '\t' ipaddr ∧ Free '\n' ipaddr ∧ Free nul ipaddr ∧
      ipaddr.length < 240)
    ⟨fun holds => ⟨holds.1, holds.2.1, holds.2.2.1, holds.2.2.2.1, holds.2.2.2.2.1,
      holds.2.2.2.2.2⟩,
    fun relayable => ⟨relayable.nonempty, relayable.colonFree, relayable.tabFree,
      relayable.newlineFree, relayable.nulFree, relayable.short⟩⟩

instance (ipaddr : List Char) (mytime : Nat) (content : List Char) :
    Decidable (NotNewer ipaddr mytime content) :=
  inferInstanceAs (Decidable (∀ line ∈ fgetsLoop maxBuff content, lineAddress line = ipaddr →
    ∀ fileTime ∈ lineTime line, fileTime ≤ mytime))

instance (clear : Nat) (files : RelayFiles) (operation : Operation) (moment : Moment) :
    Decidable (Undisturbed clear files operation moment) :=
  match operation with
  | .creating _ _ _ => inferInstanceAs (Decidable (files.cur = none))
  | .replacing ipaddr mytime _ inode content _ _ =>
      inferInstanceAs (Decidable (Relayable ipaddr ∧ mytime < 2 ^ 31 ∧ files.cur = some inode ∧
        NotNewer ipaddr mytime content))
  | .clearWriting _ _ tmp _ => inferInstanceAs (Decidable (files.tmp = some tmp))
  | .clearRenaming mytime inode tmp content =>
      inferInstanceAs (Decidable (files.cur = some inode ∧ files.tmp = some tmp ∧
        files.read tmp = copyYoung clear mytime (fgetsLoop maxBuff content)))
  | .openSmtpRelay _ | .locking _ _ | .opening _ _ _ | .reading _ _ _ _ | .updating _ _ _ _
  | .completed _ _ | .returned _ | .clearopensmtp | .clearOpening _ | .clearCreating _ _
  | .clearReading _ _ _ | .cleared => .isTrue trivial

/-- One second later everything succeeds. -/
def nextSecond : Moment := ⟨1, true, true, true⟩

/-- The next steps of one process. -/
def steps (index count : Nat) : List (Label Program Moment) :=
  List.replicate count (.advance index nextSecond)

def loginFrom (address : List Char) : Label Program Moment :=
  .launch (.openSmtpRelay (some address))

def noRelays : RelayFiles := ⟨1000, [], none, none, false⟩

theorem wellFormed_noRelays : WellFormed noRelays := ⟨nofun, nofun⟩

/-- The addresses and times of `open-smtp`, and the logins that are complete. -/
def overview (pool : Pool RelayFiles Operation) :
    List (List Char × Option Int) × List Operation :=
  ((relayLines pool.shared).map fun line => (lineAddress line, lineTime line), pool.running)

def first : List Char := "10.0.0.1".toList

def second : List Char := "10.0.0.2".toList

/-- A second login comes when `clearopensmtp` has read the clock but not the file. -/
theorem relay_entries_kept_twoLogins :
    ∃ finish, Run ((processes 3600).GuardedStep (Undisturbed 3600)) ⟨noRelays, []⟩
        ([loginFrom first] ++ steps 0 7 ++ [.launch .clearopensmtp, loginFrom second] ++
          steps 1 1 ++ steps 2 6 ++ steps 1 5) finish ∧
      overview finish = ([(first, some 1001), (second, some 1009)],
        [.completed first 1001, .cleared, .completed second 1009]) ∧
      OncePerAddress finish.shared ∧
      ∀ ipaddr mytime, .completed ipaddr mytime ∈ finish.running →
        finish.shared.now < mytime + 3600 → Present finish.shared ipaddr mytime := by
  have executed : ((processes 3600).execute (Undisturbed 3600) ⟨noRelays, []⟩
      ([loginFrom first] ++ steps 0 7 ++ [.launch .clearopensmtp, loginFrom second] ++
        steps 1 1 ++ steps 2 6 ++ steps 1 5)).map overview =
      some ([(first, some 1001), (second, some 1009)],
        [.completed first 1001, .cleared, .completed second 1009]) := by
    decide +kernel
  rcases Option.map_eq_some_iff.mp executed with ⟨finish, ran, result⟩
  have run := (processes 3600).run_of_execute ran
  exact ⟨finish, run, result, relay_entries_kept wellFormed_noRelays run⟩

/-- `clearopensmtp` has read the file when a second login comes, and renames its own over
the one with the new entry. -/
def clearedOver : List (Label Program Moment) :=
  [loginFrom first] ++ steps 0 7 ++ [.launch .clearopensmtp, loginFrom second] ++
    steps 1 4 ++ steps 2 6 ++ steps 1 2

/-- The address `::1` is empty for `get_remote_ip`. -/
def loopbackTwice : List (Label Program Moment) :=
  [loginFrom "::1".toList] ++ steps 0 7 ++ [loginFrom "::1".toList] ++ steps 1 6

/-- An entry is lost an hour before it expires, and an address has two entries. -/
theorem not_relay_entries_kept :
    (∃ finish, Run (processes 3600).Step ⟨noRelays, []⟩ clearedOver finish ∧
      finish.running = [.completed first 1001, .cleared, .completed second 1012] ∧
      finish.shared.now < 1012 + 3600 ∧ ¬Present finish.shared second 1012) ∧
    ∃ finish, Run (processes 3600).Step ⟨noRelays, []⟩ loopbackTwice finish ∧
      finish.running = [.completed [] 1001, .completed [] 1008] ∧
      ¬OncePerAddress finish.shared := by
  have executed : ∀ labels expected,
      ((processes 3600).execute (fun _ _ _ => True) ⟨noRelays, []⟩ labels).map
        (fun finish => (overview finish, finish.shared.now)) = some expected →
      ∃ finish, Run (processes 3600).Step ⟨noRelays, []⟩ labels finish ∧
        overview finish = expected.1 ∧ finish.shared.now = expected.2 := by
    intro labels expected ran
    rcases Option.map_eq_some_iff.mp ran with ⟨finish, ran, result⟩
    have run := (processes 3600).run_of_execute ran
    refine ⟨finish, run.weaken fun _ _ _ guarded => guarded.step, ?_, ?_⟩
    · rw [← result]
    · rw [← result]
  constructor
  · rcases executed clearedOver (([(first, some 1001)],
      [.completed first 1001, .cleared, .completed second 1012]), 1019) (by decide +kernel) with
      ⟨finish, run, result, now⟩
    rw [overview, Prod.mk.injEq] at result
    refine ⟨finish, run, result.2, by rw [now]; decide, ?_⟩
    intro present
    rcases present with ⟨line, member, address, _⟩
    have listed := List.mem_map_of_mem
      (f := fun line => (lineAddress line, lineTime line)) member
    rw [result.1, List.mem_singleton, address, Prod.mk.injEq] at listed
    exact absurd listed.1 (by decide)
  · rcases executed loopbackTwice (([([], some 1001), ([], some 1008)],
      [.completed [] 1001, .completed [] 1008]), 1013) (by decide +kernel) with
      ⟨finish, run, result, _⟩
    rw [overview, Prod.mk.injEq] at result
    refine ⟨finish, run, result.2, ?_⟩
    intro once
    have addresses := congrArg (List.map Prod.fst) result.1
    rw [List.map_map] at addresses
    have twice : (relayLines finish.shared).map lineAddress = [[], []] := addresses
    rw [OncePerAddress, twice] at once
    exact absurd once (by decide)

end Vpopmail.Relay

import Vpopmail.DomainEntries

/-! # The directory of the domains

`users/assign` and `users/cdb` hold a list of bindings, and the cache of a process holds one
of them. Each function on domains is a step of that list.
-/

namespace Vpopmail

open Text Vpopmail.Stream Aliases Buffer

/-! ## The installation -/

/-- The files of an installation, for these bindings. -/
structure Stored (installation : Installation) (bindings : List DomainBinding) : Prop where
  wellFormed : ∀ binding ∈ bindings, EntryWellFormed binding
  file : installation.files.assign = some (assignText bindings) ∨
    (installation.files.assign = none ∧ bindings = [])
  compiled : ∀ name, lowerit name = name → recordOf installation.cdb name =
    (bindings.find? fun binding => binding.name = name).map recordOfBinding

section Installation

variable {newu : Option (List Char) → Option Cdb} {installation : Installation}
  {bindings : List DomainBinding}

theorem Stored.assignBase (stored : Stored installation bindings) :
    Vpopmail.assignBase installation.files.assign = some (assignText bindings) := by
  rcases stored.file with file | ⟨file, rfl⟩
  · rw [file]
    rfl
  · rw [file]
    rfl

theorem Stored.assign (stored : Stored installation bindings) :
    installation.files.assign.getD [] = assignText bindings ∨ bindings = [] := by
  rcases stored.file with file | ⟨-, none⟩
  · exact .inl (by rw [file, Option.getD_some])
  · exact .inr none

/-- `qmail-newu` compiles the file. -/
theorem stored_updateNewu (compiler : QmailNewu newu) {files : Qmail} {cdb : Option Cdb}
    (wellFormed : ∀ binding ∈ bindings, EntryWellFormed binding)
    (file : files.assign = some (assignText bindings)) :
    Stored (updateNewu newu ⟨files, cdb⟩) bindings := by
  rcases compiler.compiles bindings wellFormed with ⟨compiled, made, records⟩
  have updated : updateNewu newu ⟨files, cdb⟩ = ⟨files, some compiled⟩ := by
    simp only [updateNewu, file, made]
  rw [updated]
  refine ⟨wellFormed, .inl file, ?_⟩
  intro name lower
  rw [recordOf, Option.bind_some, records name lower, Option.map_map]
  cases found : bindings.find? fun binding => binding.name = name with
  | none => rfl
  | some binding =>
      have member := List.mem_of_find?_eq_some found
      rw [Option.map_some, Option.map_some, Function.comp_apply,
        assigned_bindingData (wellFormed binding member)]

theorem Stored.withFiles (stored : Stored installation bindings) {files : Qmail}
    (same : files.assign = installation.files.assign) :
    Stored { installation with files := files } bindings :=
  ⟨stored.wellFormed, by rw [same]; exact stored.file, stored.compiled⟩

/-- Lines that are all lines of bindings. -/
theorem exists_bindings {lines : List (List Char)}
    (all : ∀ line ∈ lines, ∃ binding ∈ bindings, entryLine binding = line) :
    ∃ chosen : List DomainBinding, chosen.map entryLine = lines ∧
      ∀ binding ∈ chosen, binding ∈ bindings := by
  induction lines with
  | nil => exact ⟨[], rfl, nofun⟩
  | cons line lines induction =>
      rcases all line List.mem_cons_self with ⟨binding, member, own⟩
      rcases induction (fun other later => all other (List.mem_cons_of_mem line later)) with
        ⟨chosen, others, inside⟩
      refine ⟨binding :: chosen, by rw [List.map_cons, own, others], ?_⟩
      intro other chosenOther
      rcases List.mem_cons.mp chosenOther with rfl | later
      · exact member
      · exact inside other later

/-- A line is put into the file. -/
theorem Updated.more_bindings {binding : DomainBinding} {after : Option (List Char)}
    (wellFormed : ∀ other ∈ bindings, EntryWellFormed other) (own : EntryWellFormed binding)
    (updated : Updated .assign (entryLine binding) (some (assignText bindings)) after) :
    ∃ more, after = some (assignText more) ∧
      ∀ other, other ∈ more ↔ other = binding ∨ other ∈ bindings := by
  rcases updated.lines with ⟨lines, rfl, contained, onlyThose⟩
  have both : ∀ other ∈ binding :: bindings, EntryWellFormed other := by
    intro other member
    rcases List.mem_cons.mp member with rfl | member
    · exact own
    · exact wellFormed other member
  have all : ∀ line ∈ lines, ∃ other ∈ binding :: bindings, entryLine other = line := by
    intro line member
    rcases onlyThose line member with before | new | ⟨-, long⟩
    · rcases (mem_entries_assignText wellFormed).mp before with ⟨other, known, same⟩
      exact ⟨other, List.mem_cons_of_mem binding known, same⟩
    · exact ⟨binding, List.mem_cons_self, new.symm⟩
    · exact absurd own.fits (by omega)
  rcases exists_bindings all with ⟨chosen, same, inside⟩
  refine ⟨chosen, by rw [← same]; rfl, ?_⟩
  intro other
  rw [← List.mem_cons]
  constructor
  · exact inside other
  · intro member
    have line : entryLine other ∈ lines := by
      apply contained
      rcases List.mem_cons.mp member with rfl | known
      · exact .inr rfl
      · exact .inl ((mem_entries_assignText wellFormed).mpr ⟨other, known, rfl⟩)
    rw [← same] at line
    rcases List.mem_map.mp line with ⟨found, chosenFound, sameLine⟩
    have foundWellFormed := both found (inside found chosenFound)
    have otherWellFormed := both other member
    have equal := entryLine_injective foundWellFormed.name.colon foundWellFormed.root.colon
      otherWellFormed.name.colon otherWellFormed.root.colon sameLine
    exact equal ▸ chosenFound

section Adding

variable {stale : List Char → List Char} {access : AddAccess}

theorem addRcpthosts_assign {aliasDomain : List Char} {files after : Qmail} {result : Int}
    (ran : addRcpthosts stale access aliasDomain files = .ok (result, after)) :
    after.assign = files.assign := by
  rw [addRcpthosts] at ran
  split at ran
  · cases updated : updateFile stale access.morercpthosts .rcpthosts aliasDomain
        files.morercpthosts with
    | error fault =>
        rw [updated] at ran
        cases ran
    | ok done =>
        rw [updated] at ran
        cases ran
        rfl
  · cases updated : updateFile stale access.rcpthosts .rcpthosts aliasDomain files.rcpthosts with
    | error fault =>
        rw [updated] at ran
        cases ran
    | ok done =>
        rw [updated] at ran
        cases ran
        rfl

theorem addControl_assign {aliasDomain : List Char} {files after : Qmail} {result : Int}
    (ran : addControl stale access aliasDomain files = .ok (result, after)) :
    after.assign = files.assign := by
  rw [addControl] at ran
  cases hosts : addRcpthosts stale access aliasDomain files with
  | error fault =>
      rw [hosts] at ran
      cases ran
  | ok middle =>
      have kept := addRcpthosts_assign hosts
      rw [hosts] at ran
      simp only [Except.bind] at ran
      split at ran
      · cases ran
        exact kept
      · cases updated : updateFile stale access.virtualdomains .virtualdomains
            (snprintf maxBuff (virtualLine aliasDomain)) middle.2.virtualdomains with
        | error fault =>
            rw [updated] at ran
            cases ran
        | ok done =>
            rw [updated] at ran
            simp only [Except.map] at ran
            split at ran
            · cases ran
              exact kept
            · cases ran
              exact kept

theorem snprintf_entryLine {binding : DomainBinding} (wellFormed : EntryWellFormed binding) :
    snprintf maxBuff (entryLine binding) = entryLine binding := by
  have fits := wellFormed.fits
  exact List.take_of_length_le (by omega)

/-- `add_domain_assign` puts a binding into the directory, also when it fails later. -/
theorem Stored.addDomainAssign (compiler : QmailNewu newu)
    (stored : Stored installation bindings) {binding : DomainBinding}
    (own : EntryWellFormed binding) (creates : access.creates = true)
    (opened : access.assign.update = .opened) {result : Int} {after : Installation}
    (ran : addDomainAssign stale newu access binding.name binding.root binding.data.dir
      binding.data.uid binding.data.gid installation = .ok (result, after)) :
    ∃ more, Stored after more ∧ ∀ other, other ∈ more ↔ other = binding ∨ other ∈ bindings := by
  have base := stored.assignBase
  have clean := clean_assignText stored.wellFormed
  have line : snprintf maxBuff (assignLine binding.name binding.root binding.data.dir
      binding.data.uid binding.data.gid) = entryLine binding := snprintf_entryLine own
  have text : installation.files.assign.getD ['.', '\n'] = assignText bindings :=
    Option.some.inj base
  rw [Vpopmail.addDomainAssign, line, creates] at ran
  split at ran
  · rename_i closed
    cases closed
  · dsimp only at ran
    rw [text] at ran
    cases update : updateFile stale access.assign .assign (entryLine binding)
        (some (assignText bindings)) with
    | error fault =>
        rw [update] at ran
        cases ran
    | ok done =>
        have entry : entryLine binding ∉ ending .assign := by
          rw [ending, List.mem_singleton]
          exact entryLine_ne_period binding
        rcases updateFile_cases clean.fits own.printable entry update with
          ⟨-, zero, updated⟩ | ⟨closed, -, -⟩
        · rcases updated.more_bindings stored.wellFormed own with ⟨more, file, same⟩
          have wellFormed : ∀ other ∈ more, EntryWellFormed other := by
            intro other member
            rcases (same other).mp member with rfl | known
            · exact own
            · exact stored.wellFormed other known
          let files : Qmail := { installation.files with assign := done.2 }
          have compiled : Stored (updateNewu newu ⟨files, installation.cdb⟩) more :=
            stored_updateNewu compiler wellFormed file
          have before : (updateNewu newu ⟨files, installation.cdb⟩).files = files :=
            updateNewu_files newu _
          rw [update] at ran
          simp only [Except.bind] at ran
          rw [if_neg (not_not_intro zero)] at ran
          cases control : addControl stale access binding.name files with
          | error fault =>
              rw [before, control] at ran
              cases ran
          | ok added =>
              rw [before, control] at ran
              cases ran
              refine ⟨more, compiled.withFiles ?_, same⟩
              rw [before]
              exact addControl_assign control
        · exact absurd opened closed

end Adding

section Removing

/-- The file without some of its bindings. -/
theorem removeLines_assignText (wellFormed : ∀ binding ∈ bindings, EntryWellFormed binding)
    {removed : List DomainBinding} (inside : ∀ binding ∈ removed, binding ∈ bindings) :
    (removeLines .opened (removed.map entryLine) (some (assignText bindings))).2 =
      some (assignText (bindings.filter (· ∉ removed))) := by
  have read := (clean_assignText wellFormed).readLines_eq
  have last : ['.'] ∉ removed.map entryLine := by
    intro member
    rcases List.mem_map.mp member with ⟨binding, -, same⟩
    exact entryLine_ne_period binding same
  have same : ∀ binding ∈ bindings, entryLine binding ∉ removed.map entryLine ↔
      binding ∉ removed := by
    intro binding member
    apply not_congr
    constructor
    · intro line
      rcases List.mem_map.mp line with ⟨other, chosen, equal⟩
      have otherWellFormed := wellFormed other (inside other chosen)
      have ownWellFormed := wellFormed binding member
      have identical := entryLine_injective otherWellFormed.name.colon otherWellFormed.root.colon
        ownWellFormed.name.colon ownWellFormed.root.colon equal
      exact identical ▸ chosen
    · exact List.mem_map_of_mem
  have kept : bindings.filter ((fun line => decide (line ∉ removed.map entryLine)) ∘ entryLine) =
      bindings.filter (· ∉ removed) :=
    List.filter_congr fun binding member => decide_eq_decide.mpr (same binding member)
  rw [linesOf_assignText wellFormed] at read
  simp only [removeLines, read, List.filter_append, List.filter_map, kept,
    List.filter_singleton, decide_eq_true last]
  rfl

/-- `del_domain_assign` with the names of some bindings that have the same data. -/
theorem Stored.delDomainAssign (compiler : QmailNewu newu)
    (stored : Stored installation bindings) {removed : List DomainBinding}
    (file : installation.files.assign = some (assignText bindings))
    (inside : ∀ binding ∈ removed, binding ∈ bindings) (few : removed.length ≤ 10)
    {record : Assigned} (same : ∀ binding ∈ removed, recordOfBinding binding = record) :
    ∃ after, delDomainAssign newu .opened (removed.map Binding.name) record.realDomain record.dir
        record.uid record.gid installation = (0, after) ∧
      Stored after (bindings.filter (· ∉ removed)) ∧
      after.files.assign = some (assignText (bindings.filter (· ∉ removed))) := by
  have lines : (removed.map Binding.name).map (fun name =>
      snprintf maxBuff (assignLine name record.realDomain record.dir record.uid record.gid)) =
        removed.map entryLine := by
    rw [List.map_map]
    apply List.map_congr_left
    intro binding member
    rw [Function.comp_apply, ← same binding member]
    exact snprintf_entryLine (stored.wellFormed binding (inside binding member))
  have text := removeLines_assignText stored.wellFormed inside
  have opened : ¬ (removeLines .opened (removed.map entryLine) installation.files.assign).1 < 0 := by
    rw [removeLines_neg_iff]
    exact not_not_intro rfl
  have wellFormed : ∀ binding ∈ bindings.filter (· ∉ removed), EntryWellFormed binding :=
    fun binding member => stored.wellFormed binding (List.mem_of_mem_filter member)
  rw [Vpopmail.delDomainAssign]
  dsimp only
  rw [lines, stringListOf_ten, kept_of_length_le (by rw [List.length_map]; exact few),
    if_neg opened, file, text]
  exact ⟨_, rfl, stored_updateNewu compiler wellFormed rfl, by rw [updateNewu_files]⟩

end Removing

end Installation

/-! ## A process -/

/-- What the cache of `vget_assign` holds is the binding of a real domain. -/
def Remembers (cache : AssignCache) (bindings : List DomainBinding) : Prop :=
  ∀ domain dir, Hits cache domain dir → ⟨domain, domain, ⟨cache.inUid, cache.inGid, dir⟩⟩ ∈ bindings

/-- The names that can be looked up. -/
def asked : Set (List Char) := {name | name ≠ []}

/-- A process and its installation, for these bindings. -/
structure Administered (installation : Installation) (cache : AssignCache)
    (bindings : List DomainBinding) : Prop where
  stored : Stored installation bindings
  rooted : Rooted {binding | binding ∈ bindings}
  functional : Functional asked {binding | binding ∈ bindings}
  remembers : Remembers cache bindings

theorem remembers_of_empty {cache : AssignCache} {bindings : List DomainBinding}
    (empty : cache.inDomain = none) : Remembers cache bindings := by
  rintro domain dir ⟨-, cached, -⟩
  rw [empty] at cached
  cases cached

/-- A lookup that has found a binding. -/
structure Answered (request : AssignRequest) (answer : AssignAnswer) (binding : DomainBinding) :
    Prop where
  returned : answer.returned.isSome = true
  domain : answer.domain = some binding.root
  entry : request.dirLen = some maxBuff → request.uid = true → request.gid = true →
    ∀ memory domain uid gid, entryOf memory domain uid gid answer = recordOfBinding binding

section Process

variable {installation : Installation} {cache : AssignCache} {bindings : List DomainBinding}

theorem EntryWellFormed.dir_short {binding : DomainBinding}
    (wellFormed : EntryWellFormed binding) : binding.data.dir.length < maxBuff := by
  have fits := wellFormed.fits
  rw [entryLine_eq, fieldsLine] at fits
  simp only [List.length_append, List.length_cons] at fits
  omega

/-- What a lookup finds, and what the cache is left with. -/
theorem Administered.lookup (administered : Administered installation cache bindings)
    (request : AssignRequest) {name : List Char} (given : request.domain = some name)
    (nonempty : name ≠ []) :
    Remembers (vgetAssign installation.cdb request cache).2 bindings ∧
      ((∃ binding ∈ bindings, binding.name = lowerit name ∧
          Answered request (vgetAssign installation.cdb request cache).1 binding) ∨
        ((vgetAssign installation.cdb request cache).1.returned.isSome = false ∧
          ∀ binding ∈ bindings, binding.name ≠ lowerit name)) := by
  rcases Classical.em (∃ dir, Hits cache (lowerit name) dir) with ⟨dir, hits⟩ | misses
  · have member := administered.remembers _ dir hits
    have short := (administered.stored.wellFormed _ member).dir_short
    rw [vgetAssign_of_hits _ given nonempty hits]
    refine ⟨administered.remembers, .inl ⟨_, member, rfl, rfl, rfl, ?_⟩⟩
    intro len uid gid memory domain oldUid oldGid
    have whole : snprintf maxBuff dir = dir := by
      have fits := (administered.stored.wellFormed _ member).fits
      rw [entryLine_eq, fieldsLine] at fits
      simp only [List.length_append, List.length_cons] at fits
      exact List.take_of_length_le (by omega)
    simp only [entryOf, len, uid, gid, Option.map_some, Option.getD_some, if_true, whole,
      recordOfBinding]
  · rw [vgetAssign_of_misses _ given nonempty fun dir hits => misses ⟨dir, hits⟩]
    have record := administered.stored.compiled _ (lowerit_lowerit name)
    cases found : bindings.find? fun binding => binding.name = lowerit name with
    | none =>
        rw [found, Option.map_none] at record
        refine ⟨remembers_of_empty (readAssign_of_none record _ _), .inr ⟨?_, ?_⟩⟩
        · cases cdb : installation.cdb with
          | none => rfl
          | some find =>
              rw [cdb] at record
              have absent : find (assignKey (lowerit name)) = none :=
                Option.map_eq_none_iff.mp record
              simp only [readAssign, absent]
              rfl
        · intro binding member same
          have missed := List.find?_eq_none.mp found binding member
          exact missed (decide_eq_true same)
    | some binding =>
        have member := List.mem_of_find?_eq_some found
        have hit := List.find?_some found
        have named : binding.name = lowerit name := of_decide_eq_true hit
        have wellFormed := administered.stored.wellFormed binding member
        rw [found, Option.map_some] at record
        rw [readAssign_of_record record]
        refine ⟨?_, .inl ⟨binding, member, named, rfl, ?_, ?_⟩⟩
        · rintro domain dir ⟨-, cached, directory⟩
          cases cached
          cases directory
          exact administered.rooted binding member
        · have short := wellFormed.root.short
          exact congrArg some (List.take_of_length_le short)
        · intro len uid gid memory domain oldUid oldGid
          have short := wellFormed.root.short
          have root : snprintf (maxPwDomain + 1) binding.root = binding.root :=
            List.take_of_length_le short
          have dir : strncpy maxBuff binding.data.dir = binding.data.dir :=
            List.take_of_length_le (Nat.le_of_lt wellFormed.dir_short)
          simp only [entryOf, recordOfBinding, len, uid, gid, Option.map_some, Option.getD_some,
            if_true, root, dir]

/-- The calls with an empty name find nothing. -/
theorem vgetAssign_of_empty_name (cdb : Option Cdb) {request : AssignRequest}
    (given : request.domain = some []) (cache : AssignCache) :
    (vgetAssign cdb request cache).1.returned.isSome = false ∧
      (vgetAssign cdb request cache).2.inDomain = none := by
  simp only [vgetAssign, given]
  exact ⟨rfl, trivial⟩

theorem Administered.afterLookup (administered : Administered installation cache bindings)
    (request : AssignRequest) {name : List Char} (given : request.domain = some name) :
    Administered installation (vgetAssign installation.cdb request cache).2 bindings := by
  refine ⟨administered.stored, administered.rooted, administered.functional, ?_⟩
  rcases Classical.em (name = []) with rfl | nonempty
  · exact remembers_of_empty (vgetAssign_of_empty_name _ given cache).2
  · exact (administered.lookup request given nonempty).1

/-- A name that is not found is new. -/
theorem Administered.fresh_of_missed (administered : Administered installation cache bindings)
    (request : AssignRequest) {name : List Char} (given : request.domain = some name)
    (missed : ¬ (vgetAssign installation.cdb request cache).1.returned.isSome = true) :
    name ≠ [] → ∀ binding ∈ bindings, binding.name ≠ lowerit name := by
  intro nonempty
  rcases (administered.lookup request given nonempty).2 with
    ⟨binding, -, -, answered⟩ | ⟨-, others⟩
  · exact absurd answered.returned missed
  · exact others

/-- A lookup of everything about a name that is found. -/
theorem Administered.found (administered : Administered installation cache bindings)
    {name : List Char}
    (found : (vgetAssign installation.cdb ⟨some name, some maxBuff, true, true⟩
      cache).1.returned.isSome = true) :
    ∃ binding ∈ bindings, binding.name = lowerit name ∧ name ≠ [] ∧
      ∀ memory domain uid gid, entryOf memory domain uid gid
        (vgetAssign installation.cdb ⟨some name, some maxBuff, true, true⟩ cache).1 =
          recordOfBinding binding := by
  let request : AssignRequest := ⟨some name, some maxBuff, true, true⟩
  have nonempty : name ≠ [] := by
    rintro rfl
    have missed : (vgetAssign installation.cdb request cache).1.returned.isSome = false :=
      (vgetAssign_of_empty_name _ rfl cache).1
    exact absurd found (by rw [missed]; exact Bool.false_ne_true)
  rcases (administered.lookup request rfl nonempty).2 with
    ⟨binding, member, named, answered⟩ | ⟨missed, -⟩
  · exact ⟨binding, member, named, nonempty, answered.entry rfl rfl rfl⟩
  · exact absurd found (by rw [missed]; exact Bool.false_ne_true)

end Process

end Vpopmail

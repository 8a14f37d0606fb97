import Mathlib.Data.List.Find
import Vpopmail.DomainDirectory
import Vpopmail.Foundation.Execution
import Vpopmail.Vcdb.DirControl

/-! # Aliases of domains that are there

Runs of `vadddomain`, `vaddaliasdomain` and `vdeldomain`. As long as every line fits the
buffers and the names of a deleted domain are all found and listed, an alias in
`users/assign` stands for a domain that has the same fields.
-/

namespace Vpopmail

open Text Vpopmail.Stream Aliases Buffer Execution

/-! ## Lines -/

/-- The text behind the first colon: the real domain, the uid, the gid and the directory. -/
def fieldsOf (line : List Char) : List Char := (cut ':' line).2.getD []

/-- The lines of the domains. -/
def domainLines (state : DomainState) : List (List Char) :=
  entries .assign state.installation.files.assign

/-- The real domain of every line has a line of its own with the same fields. -/
def NoDangling (state : DomainState) : Prop :=
  ∀ line ∈ domainLines state, ∃ own ∈ domainLines state,
    nameOf own = rootOf line ∧ fieldsOf own = fieldsOf line

/-! ## Calls -/

/-- A call of one of the functions, with the name as it is given, or the start of another
process. -/
inductive DomainCall
  | add (access : DomainAccess) (vpopmailDirDomains memory domain : List Char)
      (dir : Option (List Char)) (uid gid : BitVec 32)
  | addAlias (access : AddAccess) (aliasDomain realDomain : List Char)
  | delete (access : DomainAccess) (domain : List Char)
  | anew

/-- The operations on `users/assign` succeed. -/
def DomainCall.Succeeds : DomainCall → Prop
  | .add access _ _ _ _ _ _ => access.add.creates = true ∧ access.add.assign.update = .opened
  | .addAlias access _ _ => access.creates = true ∧ access.assign.update = .opened
  | .delete access _ => access.undoAssign = .opened
  | .anew => True

section Calls

variable (stale : List Char → List Char) (newu : Option (List Char) → Option Cdb)
  (name : List Char)

def callDomain (state : DomainState) : DomainCall → Checked (DomainCode × DomainState)
  | .add access vpopmailDirDomains memory domain dir uid gid =>
      vadddomain stale newu name access vpopmailDirDomains memory domain dir uid gid state
  | .addAlias access aliasDomain realDomain =>
      (vaddaliasdomain stale newu access aliasDomain realDomain
        ⟨state.installation, state.cache⟩).map fun (code, process) =>
          (code, { state with installation := process.installation, cache := process.cache })
  | .delete access domain =>
      let (code, process) := vdeldomain newu access domain ⟨state.installation, state.cache⟩
      .ok (code, { state with installation := process.installation, cache := process.cache })
  | .anew => .ok (.success, { state with cache := AssignCache.initial })

/-- A successful call. -/
structure DomainStep (before : DomainState) (call : DomainCall) (after : DomainState) : Prop where
  called : callDomain stale newu name before call = .ok (.success, after)
  succeeds : call.Succeeds

/-- The condition on a call. A new line fits the buffer together with its newline, and its
directory has no colon and no newline. The domain of a deletion has fewer than 96
characters, and the names of its lines are at most ten, each with a period. -/
def CallFits (before : DomainState) : DomainCall → Prop
  | .add access vpopmailDirDomains _ domain dir uid gid =>
      ∀ domainHash control,
        allocateDir name access.recordsCount before.control = .ok (domainHash, control) →
        let domain := lowerit domain
        let path := domainSubDir (domainsDir vpopmailDirDomains domain dir) domainHash domain
        Free ':' path ∧ Free '\n' path ∧ Free nul path ∧
          (assignLine domain domain path uid gid).length + 1 < maxBuff
  | .addAlias _ aliasDomain realDomain =>
      ∀ line ∈ domainLines before, nameOf line = lowerit realDomain →
        ('+' :: lowerit aliasDomain ++ '-' :: ':' :: fieldsOf line).length + 1 < maxBuff
  | .delete _ domain =>
      (∀ line ∈ domainLines before, rootOf line = lowerit domain →
        (lowerit domain).length < maxPwDomain ∧ '.' ∈ nameOf line) ∧
      ((domainLines before).filter (rootOf · = lowerit domain)).length ≤ 10
  | .anew => True

structure FittingStep (before : DomainState) (call : DomainCall) (after : DomainState) : Prop where
  step : DomainStep stale newu name before call after
  fits : CallFits name before call

end Calls

/-- A server without domains. -/
def withoutDomains (files : Qmail) (control : Option (List Char)) : DomainState :=
  ⟨⟨{ files with assign := none }, none⟩, AssignCache.initial, control⟩

/-! ## The directory behind a state -/

def Directed (state : DomainState) (bindings : List DomainBinding) : Prop :=
  Administered state.installation state.cache bindings

section Directory

variable {state : DomainState} {bindings : List DomainBinding} {binding : DomainBinding}

theorem fieldsOf_entryLine (name : Free ':' binding.name) :
    fieldsOf (entryLine binding) = fieldsLine binding := by
  rw [fieldsOf, cut_entryLine name, Option.getD_some]

theorem domainLines_eq (directed : Directed state bindings) :
    domainLines state = bindings.map entryLine := by
  have wellFormed := directed.stored.wellFormed
  rcases directed.stored.file with file | ⟨file, rfl⟩
  · have others : (bindings.map entryLine).filter (· ≠ ['.']) = bindings.map entryLine := by
      rw [List.filter_eq_self]
      intro line member
      rcases List.mem_map.mp member with ⟨binding, -, rfl⟩
      exact decide_eq_true (entryLine_ne_period binding)
    have last : [['.']].filter (· ≠ ['.']) = ([] : List (List Char)) := by decide
    rw [domainLines, entries, file, (clean_assignText wellFormed).readLines_eq,
      linesOf_assignText wellFormed, List.filter_append, others, last, List.append_nil]
  · rw [domainLines, file]
    rfl

theorem Directed.fields (directed : Directed state bindings) (member : binding ∈ bindings) :
    nameOf (entryLine binding) = binding.name ∧ rootOf (entryLine binding) = binding.root ∧
      fieldsOf (entryLine binding) = fieldsLine binding := by
  have wellFormed := directed.stored.wellFormed binding member
  exact ⟨nameOf_entryLine wellFormed.name.colon,
    rootOf_entryLine wellFormed.name.colon wellFormed.root.colon,
    fieldsOf_entryLine wellFormed.name.colon⟩

theorem noDangling_of_directed (directed : Directed state bindings) : NoDangling state := by
  intro line member
  rw [domainLines_eq directed] at member ⊢
  rcases List.mem_map.mp member with ⟨binding, known, rfl⟩
  have own := directed.rooted binding known
  refine ⟨entryLine binding.own, List.mem_map_of_mem own, ?_, ?_⟩
  · rw [(directed.fields own).1, (directed.fields known).2.1]
    rfl
  · rw [(directed.fields own).2.2, (directed.fields known).2.2]
    rfl

theorem directed_withoutDomains (files : Qmail) (control : Option (List Char)) :
    Directed (withoutDomains files control) [] := by
  refine ⟨⟨nofun, .inr ⟨rfl, rfl⟩, fun _ _ => rfl⟩, ?_, ?_, remembers_of_empty rfl⟩
  · intro binding member
    cases member
  · intro first member
    cases member

/-- A binding is added. -/
theorem Directed.inserted (directed : Directed state bindings) {after : DomainState}
    {more : List DomainBinding} (stored : Stored after.installation more)
    (same : ∀ other, other ∈ more ↔ other = binding ∨ other ∈ bindings)
    (rooted : binding.own = binding ∨ binding.own ∈ bindings)
    (fresh : binding.name ≠ [] → ∀ other ∈ bindings, other.name ≠ binding.name)
    (remembers : Remembers after.cache bindings) : Directed after more := by
  have set : {other | other ∈ more} = insert binding {other | other ∈ bindings} :=
    Set.ext same
  refine ⟨stored, ?_, ?_, ?_⟩
  · intro other member
    rcases (same other).mp member with rfl | known
    · exact (same _).mpr rooted
    · exact (same _).mpr (.inr (directed.rooted other known))
  · rw [set]
    exact directed.functional.insert fresh
  · intro domain dir hits
    exact (same _).mpr (.inr (remembers domain dir hits))

end Directory

/-! ## Adding -/

section Adding

variable {stale : List Char → List Char} {newu : Option (List Char) → Option Cdb}
  {name : List Char} {state after : DomainState} {bindings : List DomainBinding}

theorem domainChar_of_domainNameChar {char : Char} (named : domainNameChar char = true) :
    domainChar char = true := by
  unfold domainNameChar Char.isAlphanum Char.isAlpha Char.isUpper Char.isLower Char.isDigit at named
  simp only [Bool.or_eq_true, Bool.and_eq_true, decide_eq_true_eq, ge_iff_le,
    UInt32.le_iff_toNat_le] at named
  simp only [domainChar, Bool.or_eq_true, Bool.and_eq_true, decide_eq_true_eq, Char.toNat]
  rcases named with ((((upper | lower) | digit) | rfl) | rfl)
  · exact .inl (.inr upper)
  · exact .inr lower
  · exact .inl (.inl (.inr digit))
  · decide
  · decide

theorem domainName_of_check {domain : List Char} (lower : lowerit domain = domain)
    (valid : checkDomainName domain = .success) : DomainName domain ∧ domain ≠ [] := by
  rcases checkDomainName_success valid with ⟨nonempty, short, -⟩
  refine ⟨⟨lower, ?_, short⟩, nonempty⟩
  rw [isDomainValid, List.all_eq_true]
  intro char member
  exact domainChar_of_domainNameChar (domainNameChars_of_check valid char member)

theorem createDomain_success {access : DomainAccess} {memory domain dir : List Char}
    {uid gid : BitVec 32}
    (ran : createDomain stale newu name access memory domain dir uid gid state =
      .ok (.success, after)) :
    ∃ domainHash control result installation,
      allocateDir name access.recordsCount state.control = .ok (domainHash, control) ∧
      addDomainAssign stale newu access.add domain domain (domainSubDir dir domainHash domain)
        uid gid state.installation = .ok (result, installation) ∧
      after = { state with installation := installation, control := control } := by
  rcases bind_eq_ok ran with ⟨⟨domainHash, control⟩, allocated, rest⟩
  dsimp only at rest
  split at rest
  · next unmade =>
      rcases map_eq_ok rest with ⟨_, _, equal⟩
      exact absurd (congrArg Prod.fst equal) unmade
  · rcases bind_eq_ok rest with ⟨⟨result, installation⟩, adding, rest⟩
    dsimp only at rest
    split at rest
    · rcases map_eq_ok rest with ⟨_, _, equal⟩
      cases equal
    · split at rest
      · rcases map_eq_ok rest with ⟨_, _, equal⟩
        cases equal
      · cases rest
        exact ⟨domainHash, control, result, installation, allocated, adding, rfl⟩

theorem domainSubDir_ne_nil (dir domainHash domain : List Char) :
    domainSubDir dir domainHash domain ≠ [] := by
  rw [domainSubDir, snprintf, Ne, List.take_eq_nil_iff]
  rintro (none | empty)
  · cases none
  · simp at empty

theorem Directed.add (compiler : QmailNewu newu) (directed : Directed state bindings)
    {access : DomainAccess} {vpopmailDirDomains memory domain : List Char}
    {dir : Option (List Char)} {uid gid : BitVec 32}
    (step : FittingStep stale newu name state
      (.add access vpopmailDirDomains memory domain dir uid gid) after) :
    ∃ more, Directed after more := by
  rcases step with ⟨⟨called, creates, opened⟩, fits⟩
  rw [callDomain, vadddomain] at called
  dsimp only at called
  split at called
  · rename_i invalid
    exact absurd (congrArg Prod.fst (Except.ok.inj called)) invalid
  · rename_i valid
    rcases domainName_of_check (lowerit_lowerit domain) (not_not.mp valid) with ⟨named, nonempty⟩
    let request : AssignRequest := ⟨some (lowerit domain), none, false, false⟩
    split at called
    · cases called
    · rename_i missing
      split at called
      · cases called
      · split at called
        · cases called
        · rcases createDomain_success called with
            ⟨domainHash, control, result, installation, allocated, added, rfl⟩
          rcases fits domainHash control allocated with ⟨colon, newline, plain, short⟩
          let path := domainSubDir (domainsDir vpopmailDirDomains (lowerit domain) dir) domainHash
            (lowerit domain)
          let binding : DomainBinding := ⟨lowerit domain, lowerit domain, ⟨uid, gid, path⟩⟩
          have own : EntryWellFormed binding := ⟨named, named, nonempty, colon, newline, plain,
            domainSubDir_ne_nil _ _ _, short⟩
          rcases directed.stored.addDomainAssign compiler own creates opened added with
            ⟨more, stored, same⟩
          have fresh := directed.fresh_of_missed request rfl missing
          rw [lowerit_lowerit] at fresh
          exact ⟨more, directed.inserted stored same (.inl rfl) fresh
            (directed.afterLookup request rfl).remembers⟩

theorem vaddaliasdomain_success {access : AddAccess} {aliasDomain realDomain : List Char}
    {before process : AssignProcess}
    (ran : vaddaliasdomain stale newu access aliasDomain realDomain before =
      .ok (.success, process)) :
    isDomainValid (lowerit aliasDomain) = true ∧ (lowerit aliasDomain).length ≤ maxPwDomain ∧
      ∃ looked found entry result,
        looked = vgetAssign before.installation.cdb ⟨some (lowerit aliasDomain), none, false, false⟩
          before.cache ∧ ¬ looked.1.returned.isSome = true ∧
        found = vgetAssign before.installation.cdb
          ⟨some (lowerit realDomain), some maxBuff, true, true⟩ looked.2 ∧
        found.1.returned.isSome = true ∧ entry = entryOf [] (lowerit realDomain) 0 0 found.1 ∧
        addDomainAssign stale newu access (lowerit aliasDomain) entry.realDomain entry.dir entry.uid
          entry.gid before.installation = .ok (result, process.installation) ∧
        process.cache = found.2 := by
  rw [vaddaliasdomain] at ran
  dsimp only at ran
  split at ran
  · cases ran
  · rename_i valid
    simp only [Bool.or_eq_true, Bool.not_eq_true', not_or, Bool.not_eq_false] at valid
    split at ran
    · cases ran
    · rename_i short
      split at ran
      · cases ran
      · rename_i missing
        split at ran
        · cases ran
        · rename_i found
          split at ran
          · cases ran
          · rcases adding : addDomainAssign stale newu access (lowerit aliasDomain) _ _ _ _ _ with
              fault | added
            · rw [adding] at ran
              cases ran
            · rw [adding] at ran
              cases ran
              simp only [Bool.not_eq_true', Bool.not_eq_false] at found
              exact ⟨valid.2, Nat.not_lt.mp short, _, _, _, added.1, rfl, missing, rfl, found, rfl,
                adding, rfl⟩

theorem Directed.addAlias (compiler : QmailNewu newu) (directed : Directed state bindings)
    {access : AddAccess} {aliasDomain realDomain : List Char}
    (step : FittingStep stale newu name state (.addAlias access aliasDomain realDomain) after) :
    ∃ more, Directed after more := by
  rcases step with ⟨⟨called, creates, opened⟩, fits⟩
  rw [callDomain] at called
  cases ran : vaddaliasdomain stale newu access aliasDomain realDomain
      ⟨state.installation, state.cache⟩ with
  | error fault =>
      rw [ran] at called
      cases called
  | ok result =>
      rcases result with ⟨code, process⟩
      rw [ran] at called
      cases called
      rcases vaddaliasdomain_success ran with ⟨valid, short, looked, found, entry, result, rfl,
        missing, rfl, present, rfl, added, cached⟩
      have later := directed.afterLookup
        ⟨some (lowerit aliasDomain), none, false, false⟩ rfl
      rcases later.found present with ⟨binding, member, named, -, entries⟩
      have wellFormed := directed.stored.wellFormed binding member
      let other : DomainBinding := ⟨lowerit aliasDomain, binding.root, binding.data⟩
      have line : entryLine other =
          '+' :: lowerit aliasDomain ++ '-' :: ':' :: fieldsOf (entryLine binding) := by
        rw [entryLine_eq, fieldsOf_entryLine wellFormed.name.colon]
        simp [other, fieldsLine]
      have fitting : (entryLine other).length + 1 < maxBuff := by
        rw [line]
        apply fits
        · rw [domainLines_eq directed]
          exact List.mem_map_of_mem member
        · rw [nameOf_entryLine wellFormed.name.colon, named, lowerit_lowerit]
      have own : EntryWellFormed other := ⟨⟨lowerit_lowerit aliasDomain, valid, short⟩,
        wellFormed.root, wellFormed.rooted, wellFormed.colon, wellFormed.newline,
        wellFormed.plain, wellFormed.nonempty, fitting⟩
      rw [entries] at added
      rcases directed.stored.addDomainAssign compiler own creates opened added with
        ⟨more, stored, same⟩
      have fresh := directed.fresh_of_missed
        ⟨some (lowerit aliasDomain), none, false, false⟩ rfl missing
      rw [lowerit_lowerit] at fresh
      refine ⟨more, directed.inserted stored same (.inr (directed.rooted binding member)) fresh ?_⟩
      change Remembers process.cache bindings
      rw [cached]
      exact (later.afterLookup _ rfl).remembers

end Adding

/-! ## Deleting -/

section Deleting

variable {newu : Option (List Char) → Option Cdb} {state : DomainState}
  {bindings : List DomainBinding}

theorem Directed.file (directed : Directed state bindings) {binding : DomainBinding}
    (member : binding ∈ bindings) :
    state.installation.files.assign = some (assignText bindings) := by
  rcases directed.stored.file with file | ⟨-, rfl⟩
  · exact file
  · cases member

/-- Some bindings with the same data are deleted. -/
theorem Directed.deleteDomains (compiler : QmailNewu newu) (directed : Directed state bindings)
    {access : DomainAccess} (opened : access.undoAssign = .opened)
    (removed : List DomainBinding) {binding : DomainBinding} (member : binding ∈ bindings)
    (inside : ∀ other ∈ removed, other ∈ bindings) (few : removed.length ≤ 10)
    (same : ∀ other ∈ removed, recordOfBinding other = recordOfBinding binding)
    (cache : AssignCache) :
    Stored (Vpopmail.deleteDomains newu access (removed.map Binding.name)
        (recordOfBinding binding) ⟨state.installation, cache⟩).installation
      (bindings.filter (· ∉ removed)) ∧
    (Vpopmail.deleteDomains newu access (removed.map Binding.name) (recordOfBinding binding)
      ⟨state.installation, cache⟩).cache.inDomain = none := by
  let names := removed.map Binding.name
  let files := (delControl access.undoControl names state.installation.files).2
  have kept : files.assign = state.installation.files.assign := delControl_assign _ _ _
  have stored : Stored { state.installation with files := files } bindings :=
    directed.stored.withFiles kept
  rcases stored.delDomainAssign compiler (kept.trans (directed.file member)) inside few same with
    ⟨after, deleted, storedAfter, -⟩
  rw [Vpopmail.deleteDomains]
  dsimp only
  rw [opened, deleted, if_neg (Int.lt_irrefl 0)]
  exact ⟨storedAfter, rfl⟩

/-- `get_domain_entries` finds the lines of a domain with a short name, when all of them have
a period in their names. -/
theorem Directed.getDomainEntries (directed : Directed state bindings) {cache : AssignCache}
    (administered : Administered state.installation cache bindings) {binding : DomainBinding}
    (member : binding ∈ bindings) (own : binding.name = binding.root)
    (short : binding.root.length < maxPwDomain)
    (dotted : ∀ other ∈ bindings, other.root = binding.root → '.' ∈ other.name) :
    ((Vpopmail.getDomainEntries binding.root ⟨state.installation, cache⟩).1.map
      DomainEntry.domain) =
        (bindings.filter (·.root = binding.root)).map Binding.name := by
  have wellFormed := directed.stored.wellFormed binding member
  have whole : snprintf maxPwDomain binding.root = binding.root :=
    List.take_of_length_le (by omega)
  have buffer : (vgetAssign state.installation.cdb ⟨some binding.root, none, false, false⟩
      cache).1.domain = some binding.root := by
    rcases (administered.lookup ⟨some binding.root, none, false, false⟩ rfl
        wellFormed.rooted).2 with ⟨other, known, named, answered⟩ | ⟨-, others⟩
    · rw [wellFormed.root.lower] at named
      have equal := administered.functional other known binding member
        (show other.name ≠ [] from named ▸ wellFormed.rooted) (named.trans own.symm)
      rw [answered.domain, equal]
    · exact absurd (own.trans wellFormed.root.lower.symm) (others binding member)
  have entries : (bindings.filter fun other => '.' ∈ other.name).filter
      (fun other => decide (other.root = binding.root)) =
        bindings.filter (·.root = binding.root) := by
    rw [List.filter_filter]
    apply List.filter_congr
    intro other known
    rcases Classical.em (other.root = binding.root) with same | different
    · simp [same, dotted other known same]
    · simp [different]
  have nonempty := wellFormed.rooted
  simp only [Vpopmail.getDomainEntries, whole, buffer, directed.file member, Option.getD_some,
    parsed_assignText directed.stored.wellFormed, List.filter_map, List.map_map, nonempty,
    decide_false, Bool.false_or]
  rw [← entries]
  rfl

/-- What is left without the bindings of a name and of its aliases. -/
theorem Directed.deleted (directed : Directed state bindings) {name : List Char}
    {after : DomainState} {left : List DomainBinding} (stored : Stored after.installation left)
    (empty : after.cache.inDomain = none)
    (same : left = bindings.filter fun other => other.root ≠ name ∧ other.name ≠ name) :
    Directed after left ∧
      domainLines after = (domainLines state).filter fun line =>
        rootOf line ≠ name ∧ nameOf line ≠ name := by
  have set : {other | other ∈ left} = Aliases.deleted {other | other ∈ bindings} name := by
    ext other
    rw [Set.mem_ofPred_eq, same, List.mem_filter, decide_eq_true_eq, Aliases.deleted,
      Set.mem_ofPred_eq, Set.mem_ofPred_eq, and_comm (a := other.root ≠ name)]
  have administered : Directed after left := by
    refine ⟨stored, ?_, ?_, remembers_of_empty empty⟩
    · rw [set]
      exact directed.rooted.deleted name
    · rw [set]
      exact directed.functional.deleted name
  refine ⟨administered, ?_⟩
  rw [domainLines_eq administered, domainLines_eq directed, List.filter_map, same]
  apply congrArg (List.map entryLine)
  apply List.filter_congr
  intro other member
  rcases directed.fields member with ⟨named, root, -⟩
  rw [Function.comp_apply, named, root]

theorem vdeldomain_success {access : DomainAccess} {domain : List Char}
    {before process : AssignProcess}
    (ran : vdeldomain newu access domain before = (.success, process)) :
    ∃ looked entry,
      looked = vgetAssign before.installation.cdb
        ⟨some (lowerit domain), some maxBuff, true, true⟩ before.cache ∧
      looked.1.returned.isSome = true ∧
      entry = entryOf [] (lowerit domain) 0 0 looked.1 ∧
      ((lowerit domain ≠ entry.realDomain ∧
          process = deleteDomains newu access [lowerit domain] entry
            { before with cache := looked.2 }) ∨
        (lowerit domain = entry.realDomain ∧ ∃ cache,
          process = deleteDomains newu access
            (stringListOf 10 ((getDomainEntries entry.realDomain
              { before with cache := looked.2 }).1.map DomainEntry.domain)).values entry
            { before with cache := cache })) := by
  rw [vdeldomain] at ran
  dsimp only at ran
  split at ran
  · cases ran
  · split at ran
    · cases ran
    · rename_i found
      simp only [Bool.not_eq_true', Bool.not_eq_false] at found
      split at ran
      · rename_i different
        cases ran
        exact ⟨_, _, rfl, found, rfl, .inl ⟨different, rfl⟩⟩
      · rename_i same
        cases ran
        exact ⟨_, _, rfl, found, rfl, .inr ⟨not_not.mp same, _, rfl⟩⟩

theorem Directed.delete (compiler : QmailNewu newu) (directed : Directed state bindings)
    {stale : List Char → List Char} {name : List Char} {access : DomainAccess}
    {domain : List Char} {after : DomainState}
    (step : FittingStep stale newu name state (.delete access domain) after) :
    ∃ left, Directed after left ∧
      domainLines after = (domainLines state).filter fun line =>
        rootOf line ≠ lowerit domain ∧ nameOf line ≠ lowerit domain := by
  rcases step with ⟨⟨called, opened⟩, fits, few⟩
  rw [callDomain] at called
  cases ran : vdeldomain newu access domain ⟨state.installation, state.cache⟩ with
  | mk code process =>
      rw [ran] at called
      cases called
      rcases vdeldomain_success ran with ⟨looked, entry, rfl, present, rfl, deletion⟩
      rcases directed.found present with ⟨binding, member, named, nonempty, entries⟩
      have administered := directed.afterLookup
        ⟨some (lowerit domain), some maxBuff, true, true⟩ rfl
      rw [lowerit_lowerit] at named
      rw [entries] at deletion
      have named' : ∀ other ∈ bindings, other.name = lowerit domain → other = binding :=
        fun other known same => directed.functional other known binding member
          (show other.name ≠ [] from same ▸ nonempty) (same.trans named.symm)
      rcases deletion with ⟨different, rfl⟩ | ⟨same, cache, rfl⟩
      · have aliased : binding.name ≠ binding.root := by
          rw [named]
          exact different
        have removed := directed.deleteDomains compiler opened [binding] member
          (fun other chosen => List.mem_singleton.mp chosen ▸ member) (by simp)
          (fun other chosen => by rw [List.mem_singleton.mp chosen])
          (vgetAssign state.installation.cdb
            ⟨some (lowerit domain), some maxBuff, true, true⟩ state.cache).2
        rw [List.map_singleton, named] at removed
        refine ⟨_, directed.deleted removed.1 removed.2 ?_⟩
        apply List.filter_congr
        intro other known
        have root := directed.rooted.root_ne directed.functional member known
          (directed.stored.wellFormed other known).rooted aliased
        rw [named] at root
        rw [decide_eq_decide]
        constructor
        · intro outside
          exact ⟨root, fun same => outside (List.mem_singleton.mpr (named' other known same))⟩
        · rintro ⟨-, unequal⟩ inside
          rw [List.mem_singleton.mp inside] at unequal
          exact unequal named
      · have own : binding.name = binding.root := named.trans same
        have root : binding.root = lowerit domain := same.symm
        have allowed : ∀ other ∈ bindings, other.root = binding.root →
            binding.root.length < maxPwDomain ∧ '.' ∈ other.name := by
          intro other known sameRoot
          rcases directed.fields known with ⟨nameField, rootField, -⟩
          have line := fits (entryLine other)
            (by rw [domainLines_eq directed]; exact List.mem_map_of_mem known)
            (by rw [rootField, sameRoot, root])
          rw [nameField, ← root] at line
          exact line
        have ten : (bindings.filter (·.root = binding.root)).length ≤ 10 := by
          rw [domainLines_eq directed, List.filter_map, List.length_map] at few
          have same : bindings.filter ((fun line => decide (rootOf line = lowerit domain)) ∘
              entryLine) = bindings.filter (·.root = binding.root) := by
            apply List.filter_congr
            intro other known
            rw [Function.comp_apply, (directed.fields known).2.1, root]
          rw [same] at few
          exact few
        have names := directed.getDomainEntries administered member own
          (allowed binding member rfl).1 fun other known sameRoot =>
            (allowed other known sameRoot).2
        have all := kept_of_length_le (show ((bindings.filter (·.root = binding.root)).map
          Binding.name).length ≤ 10 by rw [List.length_map]; exact ten)
        have removed := directed.deleteDomains compiler opened
          (bindings.filter (·.root = binding.root)) member
          (fun other chosen => List.mem_of_mem_filter chosen) ten
          (fun other chosen => by
            rcases List.mem_filter.mp chosen with ⟨known, sameRoot⟩
            have data := directed.rooted.data_eq directed.functional known member
              (directed.stored.wellFormed other known).rooted (of_decide_eq_true sameRoot)
            rw [recordOfBinding, recordOfBinding, data, of_decide_eq_true sameRoot]) cache
        rw [stringListOf_ten, show (recordOfBinding binding).realDomain = binding.root from rfl,
          names, all]
        refine ⟨_, directed.deleted removed.1 removed.2 ?_⟩
        apply List.filter_congr
        intro other known
        rw [decide_eq_decide, List.mem_filter, decide_eq_true_eq, ← root]
        constructor
        · intro outside
          have unequal : other.root ≠ binding.root := fun sameRoot => outside ⟨known, sameRoot⟩
          refine ⟨unequal, fun sameName => unequal ?_⟩
          rw [named' other known (sameName.trans root)]
        · rintro ⟨unequal, -⟩ ⟨-, sameRoot⟩
          exact unequal sameRoot

end Deleting

/-! ## Runs -/

section Runs

variable {stale : List Char → List Char} {newu : Option (List Char) → Option Cdb}
  {name : List Char}

theorem directed_step (compiler : QmailNewu newu) {before after : DomainState} {call : DomainCall}
    (directed : ∃ bindings, Directed before bindings)
    (step : FittingStep stale newu name before call after) : ∃ bindings, Directed after bindings := by
  rcases directed with ⟨bindings, directed⟩
  cases call with
  | add access vpopmailDirDomains memory domain dir uid gid => exact directed.add compiler step
  | addAlias access aliasDomain realDomain => exact directed.addAlias compiler step
  | delete access domain =>
      rcases directed.delete compiler step with ⟨left, after, -⟩
      exact ⟨left, after⟩
  | anew =>
      have called := step.step.called
      cases called
      exact ⟨bindings, directed.stored, directed.rooted, directed.functional,
        remembers_of_empty rfl⟩

/-- In every state that fitting calls reach no alias dangles, and a deletion that fits takes
the lines of the name and of its aliases out of the file, and no others. -/
theorem no_dangling (compiler : QmailNewu newu) {files : Qmail} {control : Option (List Char)}
    {calls : List DomainCall} {state : DomainState}
    (run : Run (FittingStep stale newu name) (withoutDomains files control) calls state) :
    NoDangling state ∧ ∀ access domain after,
      FittingStep stale newu name state (.delete access domain) after →
        domainLines after = (domainLines state).filter fun line =>
          rootOf line ≠ lowerit domain ∧ nameOf line ≠ lowerit domain := by
  have reached := run.preserves (fun state => ∃ bindings, Directed state bindings)
    ⟨[], directed_withoutDomains files control⟩ fun _ _ _ => directed_step compiler
  rcases reached with ⟨bindings, directed⟩
  refine ⟨noDangling_of_directed directed, ?_⟩
  intro access domain after step
  rcases directed.delete compiler step with ⟨-, -, lines⟩
  exact lines

end Runs

/-! ## Runs of two domains -/

/-- The fields of a line in `users/cdb`, up to the sixth colon. -/
def recordData (line : List Char) : Option CdbData :=
  let data := (fieldsOf line).dropLast.map fun char => if char = ':' then nul else char
  if enough : 4 ≤ data.count nul then some ⟨data, enough⟩ else none

/-- `qmail-newu` on a file of domains. -/
def compileAssign (file : Option (List Char)) : Option Cdb :=
  file.map fun text key =>
    ((fileLines text).find? fun line => key = '!' :: (cut ':' line).1.drop 1).bind recordData

theorem map_colon_of_free {text : List Char} (free : Free ':' text) :
    text.map (fun char => if char = ':' then nul else char) = text := by
  have same : ∀ char ∈ text, (if char = ':' then nul else char) = id char := by
    intro char member
    exact if_neg fun equal : char = ':' => free (equal ▸ member)
  rw [List.map_congr_left same, List.map_id]

theorem recordData_entryLine {binding : DomainBinding} (wellFormed : EntryWellFormed binding) :
    recordData (entryLine binding) = some (bindingData binding) := by
  have data : ((fieldsOf (entryLine binding)).dropLast.map fun char =>
      if char = ':' then nul else char) = (bindingData binding).val := by
    have fields : (fieldsLine binding).dropLast = binding.root ++ ':' ::
        (Decimal.spellNat binding.data.uid.toNat ++ ':' ::
          (Decimal.spellNat binding.data.gid.toNat ++ ':' :: (binding.data.dir ++
            [':', '-', ':']))) := by
      have whole : fieldsLine binding = (binding.root ++ ':' ::
          (Decimal.spellNat binding.data.uid.toNat ++ ':' ::
            (Decimal.spellNat binding.data.gid.toNat ++ ':' :: (binding.data.dir ++
              [':', '-', ':'])))) ++ [':'] := by
        simp [fieldsLine]
      rw [whole, List.dropLast_concat]
    rw [fieldsOf_entryLine wellFormed.name.colon, fields]
    simp only [List.map_append, List.map_cons, if_true, map_colon_of_free wellFormed.root.colon,
      map_colon_of_free (spellNat_colon _), map_colon_of_free wellFormed.colon]
    rfl
  have enough : 4 ≤ ((fieldsOf (entryLine binding)).dropLast.map fun char =>
      if char = ':' then nul else char).count nul := by
    rw [data]
    exact (bindingData binding).property
  rw [recordData, dif_pos enough]
  exact congrArg some (Subtype.ext data)

theorem qmailNewu_compileAssign : QmailNewu compileAssign := by
  constructor
  intro bindings wellFormed
  refine ⟨_, rfl, ?_⟩
  intro name lower
  have key : assignKey name = '!' :: (name ++ ['-']) := by
    have short : name.length ≤ 156 := by
      rw [← lower, lowerit, List.length_map]
      exact List.length_take_le _ _
    rw [assignKey, snprintf, List.take_of_length_le]
    · rfl
    · simp only [maxBuff, List.length_append, List.length_cons, List.length_nil]
      omega
  have lines : fileLines (assignText bindings) = bindings.map entryLine ++ [['.']] :=
    linesOf_assignText wellFormed
  have last : [['.']].find? (fun line => decide
      (assignKey name = '!' :: (cut ':' line).1.drop 1)) = none := by
    rw [List.find?_eq_none]
    intro line member
    rw [List.mem_singleton.mp member, key, decide_eq_true_eq, show (cut ':' ['.']).1 = ['.'] from
      rfl, List.drop_one, List.tail_cons]
    intro same
    have length := congrArg List.length same
    simp at length
  have found : (bindings.map entryLine).find? (fun line => decide
      (assignKey name = '!' :: (cut ':' line).1.drop 1)) =
        (bindings.find? fun binding => binding.name = name).map entryLine := by
    rw [List.find?_map]
    apply congrArg (Option.map entryLine)
    apply List.find?_congr
    intro binding member
    have own := wellFormed binding member
    rw [Function.comp_apply, key, cut_entryLine own.name.colon, decide_eq_decide]
    constructor
    · intro same
      exact (List.append_cancel_right (List.cons.inj same).2).symm
    · rintro rfl
      rfl
  change ((fileLines (assignText bindings)).find? _).bind recordData = _
  rw [lines, List.find?_append, found, last, Option.or_none]
  cases first : bindings.find? fun binding => binding.name = name with
  | none => rfl
  | some binding =>
      rw [Option.map_some, Option.bind_some, Option.map_some]
      exact recordData_entryLine (wellFormed binding (List.mem_of_find?_eq_some first))

/-- Everything succeeds. -/
def opensEverything : DomainAccess where
  entersDir := true
  makesDir := true
  entersMadeDir := true
  recordsCount := true
  makesSubDir := true
  entersSubDir := true
  opensQmailDefault := true
  add := ⟨true, ⟨.opened, .opened⟩, true, ⟨.opened, .opened⟩, ⟨.opened, .opened⟩,
    ⟨.opened, .opened⟩, .opened⟩
  addsToAuth := true
  undoCount := true
  undoAssign := .opened
  undoControl := ⟨.opened, .opened, .opened⟩

/-- A new server. -/
def newServer : DomainState := withoutDomains ⟨none, none, none, none, none⟩ none

/-- `vadddomain` of a domain. -/
def addCall (domain : List Char) : DomainCall :=
  .add opensEverything ['/', 'v'] [] domain none 1 1

/-- `vaddaliasdomain` of `x.b`, for the letter, to a domain. -/
def aliasCall (domain : List Char) (letter : Char) : DomainCall :=
  .addAlias opensEverything.add [letter, '.', 'b'] domain

/-- `vdeldomain` of a domain. -/
def deleteCall (domain : List Char) : DomainCall := .delete opensEverything domain

instance (call : DomainCall) : Decidable call.Succeeds :=
  match call with
  | .add access _ _ _ _ _ _ =>
      inferInstanceAs (Decidable (access.add.creates = true ∧ access.add.assign.update = .opened))
  | .addAlias access _ _ =>
      inferInstanceAs (Decidable (access.creates = true ∧ access.assign.update = .opened))
  | .delete access _ => inferInstanceAs (Decidable (access.undoAssign = .opened))
  | .anew => isTrue trivial

/-- The condition on a call, with the directory that is allocated. -/
def fitsCall (before : DomainState) : DomainCall → Bool
  | .add access vpopmailDirDomains _ domain dir uid gid =>
      match allocateDir [] access.recordsCount before.control with
      | .error _ => true
      | .ok (domainHash, _) =>
          let domain := lowerit domain
          let path := domainSubDir (domainsDir vpopmailDirDomains domain dir) domainHash domain
          !path.contains ':' && !path.contains '\n' && !path.contains nul &&
            (assignLine domain domain path uid gid).length + 1 < maxBuff
  | .addAlias _ aliasDomain realDomain =>
      (domainLines before).all fun line => nameOf line ≠ lowerit realDomain ||
        ('+' :: lowerit aliasDomain ++ '-' :: ':' :: fieldsOf line).length + 1 < maxBuff
  | .delete _ domain =>
      ((domainLines before).all fun line => rootOf line ≠ lowerit domain ||
        (lowerit domain).length < maxPwDomain && (nameOf line).contains '.') &&
      ((domainLines before).filter (rootOf · = lowerit domain)).length ≤ 10
  | .anew => true

theorem callFits_of_fitsCall {before : DomainState} {call : DomainCall}
    (fits : fitsCall before call = true) : CallFits [] before call := by
  cases call with
  | add access vpopmailDirDomains memory domain dir uid gid =>
      intro domainHash control allocated
      simp only [fitsCall, allocated, Bool.and_eq_true, Bool.not_eq_true', decide_eq_true_eq,
        List.contains_eq_mem, decide_eq_false_iff_not, and_assoc] at fits
      exact fits
  | addAlias access aliasDomain realDomain =>
      intro line member named
      have short := List.all_eq_true.mp fits line member
      simpa [named] using short
  | delete access domain =>
      simp only [fitsCall, Bool.and_eq_true, decide_eq_true_eq] at fits
      refine ⟨?_, fits.2⟩
      intro line member root
      have short := List.all_eq_true.mp fits.1 line member
      simpa [root] using short
  | anew => trivial

/-- A successful call of a list, none if it fails. -/
def nextDomains (state : DomainState) (call : DomainCall) : Option DomainState :=
  match callDomain (fun _ => []) compileAssign [] state call with
  | .ok (.success, after) => if call.Succeeds then some after else none
  | _ => none

/-- A successful call that fits. -/
def nextFitting (state : DomainState) (call : DomainCall) : Option DomainState :=
  if fitsCall state call then nextDomains state call else none

theorem step_of_nextDomains {before after : DomainState} {call : DomainCall}
    (next : nextDomains before call = some after) :
    DomainStep (fun _ => []) compileAssign [] before call after := by
  rw [nextDomains] at next
  split at next
  · next ran =>
      split at next
      · next succeeds =>
          cases next
          exact ⟨ran, succeeds⟩
      · cases next
  · cases next

theorem step_of_nextFitting {before after : DomainState} {call : DomainCall}
    (next : nextFitting before call = some after) :
    FittingStep (fun _ => []) compileAssign [] before call after := by
  rw [nextFitting] at next
  split at next
  · next fits => exact ⟨step_of_nextDomains next, callFits_of_fitsCall fits⟩
  · cases next

/-- Two domains with two aliases each are added, and one of them is deleted by the name of an
alias, then by its own. -/
def twoDomains : List DomainCall :=
  [addCall ['a', '.', 'b'], aliasCall ['a', '.', 'b'] 'c', addCall ['e', '.', 'f'],
    aliasCall ['a', '.', 'b'] 'd', aliasCall ['e', '.', 'f'] 'g', aliasCall ['e', '.', 'f'] 'h',
    deleteCall ['c', '.', 'b'], .anew, deleteCall ['a', '.', 'b']]

theorem no_dangling_twoDomains : ∃ state,
    Run (FittingStep (fun _ => []) compileAssign []) newServer twoDomains state ∧
      (domainLines state).map nameOf = [['e', '.', 'f'], ['g', '.', 'b'], ['h', '.', 'b']] ∧
      NoDangling state ∧ ∀ access domain after,
        FittingStep (fun _ => []) compileAssign [] state (.delete access domain) after →
          domainLines after = (domainLines state).filter fun line =>
            rootOf line ≠ lowerit domain ∧ nameOf line ≠ lowerit domain := by
  have left : (execute nextFitting newServer twoDomains).map
      (fun state => (domainLines state).map nameOf) =
        some [['e', '.', 'f'], ['g', '.', 'b'], ['h', '.', 'b']] := by decide +kernel
  rcases Option.map_eq_some_iff.mp left with ⟨state, executed, names⟩
  have run := (run_of_execute executed).weaken fun _ _ _ => step_of_nextFitting
  exact ⟨state, run, names, no_dangling qmailNewu_compileAssign run⟩

/-- A domain with ten aliases is added and deleted. -/
def tenAliases : List DomainCall :=
  addCall ['a', '.', 'b'] ::
    (['c', 'd', 'e', 'f', 'g', 'h', 'i', 'j', 'k', 'l'].map (aliasCall ['a', '.', 'b']) ++
      [deleteCall ['a', '.', 'b']])

/-- The eleventh name is lost when the list of the names grows, and its line stays. -/
theorem not_no_dangling :
    ¬ ∀ (stale : List Char → List Char) (newu : Option (List Char) → Option Cdb)
        (name : List Char) (files : Qmail) (control : Option (List Char))
        (calls : List DomainCall) (state : DomainState),
      QmailNewu newu →
      Run (DomainStep stale newu name) (withoutDomains files control) calls state →
      NoDangling state := by
  intro all
  have left : (execute nextDomains newServer tenAliases).map domainLines =
      some [assignLine ['l', '.', 'b'] ['a', '.', 'b'] ['/', 'v', '/', 'a', '.', 'b', '/',
        'a', '.', 'b'] 1 1] := by decide +kernel
  rcases Option.map_eq_some_iff.mp left with ⟨state, executed, lines⟩
  have run := (run_of_execute executed).weaken fun _ _ _ => step_of_nextDomains
  have none := all _ _ _ _ _ _ _ qmailNewu_compileAssign run
  rcases none _ (lines ▸ List.mem_cons_self) with ⟨own, member, named, -⟩
  rw [lines, List.mem_singleton] at member
  rw [member] at named
  revert named
  decide

end Vpopmail

import Vpopmail.DomainAssign
import Vpopmail.Foundation.Execution

/-! # Cached lookups

The record that `vget_assign` keeps is found again under the name of the real domain,
and not under the name it was looked up by. What it answers is what it would read as long
as the real domain has an entry of its own that says the same.
-/

namespace Vpopmail

open Execution Buffer

/-! ## Operations of one process -/

inductive AssignOperation
  | lookup (request : AssignRequest)
  | add (access : AddAccess) (aliasDomain realDomain dir : List Char) (uid gid : BitVec 32)
  | remove (access : FileAccess) (aliases : List (List Char)) (realDomain dir : List Char)
      (uid gid : BitVec 32)

structure AssignProcess where
  installation : Installation
  cache : AssignCache

/-- The call of `vget_assign` that clears the cache. -/
def clearCache (process : AssignProcess) : AssignProcess :=
  { process with
    cache := (vgetAssign process.installation.cdb ⟨none, none, false, false⟩ process.cache).2 }

section Process

variable (stale : List Char → List Char) (newu : Option (List Char) → Option Cdb)

def operate (process : AssignProcess) : AssignOperation → Checked AssignProcess
  | .lookup request =>
      .ok { process with
        cache := (vgetAssign process.installation.cdb request process.cache).2 }
  | .add access aliasDomain realDomain dir uid gid =>
      (addDomainAssign stale newu access aliasDomain realDomain dir uid gid
          process.installation).map
        fun added => { process with installation := added.2 }
  | .remove access aliases realDomain dir uid gid =>
      let removed :=
        delDomainAssign newu access aliases realDomain dir uid gid process.installation
      let process := { process with installation := removed.2 }
      .ok (if removed.1 < 0 then process else clearCache process)

def AssignStep (before : AssignProcess) (operation : AssignOperation) (after : AssignProcess) :
    Prop :=
  operate stale newu before operation = .ok after

end Process

/-! ## Reading -/

/-- The cache has the name, with this directory. -/
def Hits (cache : AssignCache) (domain dir : List Char) : Prop :=
  cache.inDomainSize ≠ 0 ∧ cache.inDomain = some domain ∧ cache.inDir = some dir

theorem vgetAssign_of_hits (cdb : Option Cdb) {request : AssignRequest} {cache : AssignCache}
    {name dir : List Char} (asked : request.domain = some name) (nonempty : name ≠ [])
    (hits : Hits cache (lowerit name) dir) :
    vgetAssign cdb request cache =
      ({ returned := some dir
         domain := some (lowerit name)
         dir := request.dirLen.map fun size => snprintf size dir
         uid := if request.uid then some cache.inUid else none
         gid := if request.gid then some cache.inGid else none }, cache) := by
  rcases hits with ⟨size, domain, found⟩
  cases name with
  | nil => exact absurd rfl nonempty
  | cons head tail => simp [vgetAssign, asked, found, domain, size]

theorem vgetAssign_of_misses (cdb : Option Cdb) {request : AssignRequest} {cache : AssignCache}
    {name : List Char} (asked : request.domain = some name) (nonempty : name ≠ [])
    (misses : ∀ dir, ¬ Hits cache (lowerit name) dir) :
    vgetAssign cdb request cache = readAssign cdb request (lowerit name) cache := by
  cases name with
  | nil => exact absurd rfl nonempty
  | cons head tail =>
      rw [vgetAssign, asked]
      cases found : cache.inDir with
      | none => simp
      | some dir =>
          apply if_neg
          rintro ⟨size, domain⟩
          exact misses dir ⟨size, domain, found⟩

theorem not_hits_initial (domain dir : List Char) : ¬ Hits AssignCache.initial domain dir := by
  rintro ⟨size, -⟩
  exact size rfl

/-- What is read does not depend on the cache. -/
theorem readAssign_answer (cdb : Option Cdb) (request : AssignRequest) (domain : List Char)
    (cache other : AssignCache) :
    (readAssign cdb request domain cache).1 = (readAssign cdb request domain other).1 := by
  cases cdb with
  | none => rfl
  | some find =>
      simp only [readAssign]

theorem readAssign_of_record {cdb : Option Cdb} {domain : List Char} {record : Assigned}
    (found : recordOf cdb domain = some record) (request : AssignRequest) (cache : AssignCache) :
    readAssign cdb request domain cache =
      ({ returned := some record.dir
         domain := some (snprintf (maxPwDomain + 1) record.realDomain)
         dir := request.dirLen.map fun size => strncpy size record.dir
         uid := if request.uid then some record.uid else none
         gid := if request.gid then some record.gid else none },
       { inDomain := some record.realDomain
         inDomainSize := record.realDomain.length + 1
         inDir := some record.dir
         inUid := record.uid
         inGid := record.gid }) := by
  cases cdb with
  | none => cases found
  | some find =>
      rcases Option.map_eq_some_iff.mp found with ⟨data, present, rfl⟩
      simp only [readAssign, present]

theorem readAssign_of_none {cdb : Option Cdb} {domain : List Char}
    (missing : recordOf cdb domain = none) (request : AssignRequest) (cache : AssignCache) :
    (readAssign cdb request domain cache).2.inDomain = none := by
  cases cdb with
  | none => rfl
  | some find =>
      have absent : find (assignKey domain) = none := Option.map_eq_none_iff.mp missing
      simp only [readAssign, absent]
      rfl

/-- The real domain of a record can be looked up by its name, and then has an entry of its
own with the same data. -/
def Agrees (cdb : Option Cdb) (record : Assigned) : Prop :=
  lowerit record.realDomain = record.realDomain → record.realDomain ≠ [] →
    ∃ own, recordOf cdb record.realDomain = some own ∧
      snprintf (maxPwDomain + 1) own.realDomain = record.realDomain ∧
      own.uid = record.uid ∧ own.gid = record.gid ∧ own.dir = record.dir

/-- What is cached is what is read under the same name. -/
def Current (process : AssignProcess) : Prop :=
  ∀ domain dir, Hits process.cache domain dir →
    Agrees process.installation.cdb ⟨domain, process.cache.inUid, process.cache.inGid, dir⟩

theorem lowerit_lowerit (name : List Char) : lowerit (lowerit name) = lowerit name := by
  apply lowerit_eq_self
  · rw [lowerit, List.length_map, List.length_take]
    omega
  · intro char member
    rcases List.mem_map.mp member with ⟨other, -, rfl⟩
    exact lowerChar_lowerChar other

theorem lowerit_ne_nil {name : List Char} (nonempty : name ≠ []) : lowerit name ≠ [] := by
  cases name with
  | nil => exact absurd rfl nonempty
  | cons head tail => simp [lowerit]

/-- The condition on an operation: a record that is read agrees with the one of its real
domain, the buffer has room for the directory in the cache, and adding a domain leaves the
record of the one in the cache as it is. -/
def Meets (stale : List Char → List Char) (newu : Option (List Char) → Option Cdb)
    (process : AssignProcess) : AssignOperation → Prop
  | .lookup request =>
      ∀ name, request.domain = some name → name ≠ [] →
        (∀ dir, Hits process.cache (lowerit name) dir →
          ∀ size, request.dirLen = some size → size = 0 ∨ dir.length < size) ∧
        ((∀ dir, ¬ Hits process.cache (lowerit name) dir) →
          ∀ record, recordOf process.installation.cdb (lowerit name) = some record →
            Agrees process.installation.cdb record)
  | .add access aliasDomain realDomain dir uid gid =>
      ∀ added, addDomainAssign stale newu access aliasDomain realDomain dir uid gid
          process.installation = .ok added →
        ∀ domain, process.cache.inDomain = some domain →
          recordOf added.2.cdb domain = recordOf process.installation.cdb domain
  | .remove _ _ _ _ _ _ => True

structure MeetingStep (stale : List Char → List Char) (newu : Option (List Char) → Option Cdb)
    (before : AssignProcess) (operation : AssignOperation) (after : AssignProcess) : Prop where
  step : AssignStep stale newu before operation after
  meets : Meets stale newu before operation

theorem snprintf_eq_strncpy {size : Nat} {text : List Char}
    (room : size = 0 ∨ text.length < size) : snprintf size text = strncpy size text := by
  rcases room with zero | room
  · rw [zero]
    rfl
  · rw [snprintf, strncpy, List.take_of_length_le (by omega), List.take_of_length_le (by omega)]

/-- With what is cached current, an answer is the one that is read. -/
theorem answer_eq_uncached {stale : List Char → List Char}
    {newu : Option (List Char) → Option Cdb} {process : AssignProcess} {request : AssignRequest}
    (current : Current process) (meets : Meets stale newu process (.lookup request)) :
    (vgetAssign process.installation.cdb request process.cache).1 =
      uncached process.installation.cdb request := by
  rw [uncached]
  rcases asked : request.domain with _ | name
  · simp only [vgetAssign, asked]
  rcases Classical.em (name = []) with empty | nonempty
  · simp only [vgetAssign, asked, empty]
  rw [vgetAssign_of_misses _ asked nonempty (not_hits_initial _)]
  rcases Classical.em (∃ dir, Hits process.cache (lowerit name) dir) with ⟨dir, hits⟩ | misses
  · rcases current _ dir hits (lowerit_lowerit name) (lowerit_ne_nil nonempty) with
      ⟨own, found, domain, uid, gid, directory⟩
    rw [vgetAssign_of_hits _ asked nonempty hits, readAssign_of_record found]
    simp only at domain uid gid directory
    simp only [domain, uid, gid, directory]
    cases len : request.dirLen with
    | none => rfl
    | some size =>
        have room := (meets name asked nonempty).1 dir hits size len
        simp only [Option.map_some, snprintf_eq_strncpy room]
  · rw [vgetAssign_of_misses _ asked nonempty fun dir hits => misses ⟨dir, hits⟩]
    exact readAssign_answer _ _ _ _ _

/-! ## Runs -/

theorem current_of_empty {process : AssignProcess} (empty : process.cache.inDomain = none) :
    Current process := by
  rintro domain dir ⟨-, cached, -⟩
  rw [empty] at cached
  cases cached

theorem current_lookup {stale : List Char → List Char} {newu : Option (List Char) → Option Cdb}
    {process : AssignProcess} {request : AssignRequest} (current : Current process)
    (meets : Meets stale newu process (.lookup request)) :
    Current { process with
      cache := (vgetAssign process.installation.cdb request process.cache).2 } := by
  rcases asked : request.domain with _ | name
  · apply current_of_empty
    simp only [vgetAssign, asked]
  rcases Classical.em (name = []) with empty | nonempty
  · apply current_of_empty
    simp only [vgetAssign, asked, empty]
  rcases Classical.em (∃ dir, Hits process.cache (lowerit name) dir) with ⟨dir, hits⟩ | misses
  · rw [vgetAssign_of_hits _ asked nonempty hits]
    exact current
  · have missed : ∀ dir, ¬ Hits process.cache (lowerit name) dir :=
      fun dir hits => misses ⟨dir, hits⟩
    rw [vgetAssign_of_misses _ asked nonempty missed]
    cases found : recordOf process.installation.cdb (lowerit name) with
    | none => exact current_of_empty (readAssign_of_none found _ _)
    | some record =>
        rw [readAssign_of_record found]
        rintro domain dir ⟨-, cached, directory⟩
        cases cached
        cases directory
        exact (meets name asked nonempty).2 missed record found

theorem current_add {process : AssignProcess} {installation : Installation}
    (current : Current process)
    (kept : ∀ domain, process.cache.inDomain = some domain →
      recordOf installation.cdb domain = recordOf process.installation.cdb domain) :
    Current { process with installation := installation } := by
  intro domain dir hits lower nonempty
  rcases current domain dir hits lower nonempty with ⟨own, found, same⟩
  exact ⟨own, (kept domain hits.2.1).trans found, same⟩

theorem delDomainAssign_failed {newu : Option (List Char) → Option Cdb} {access : FileAccess}
    {aliases : List (List Char)} {realDomain dir : List Char} {uid gid : BitVec 32}
    {installation : Installation}
    (failed : (delDomainAssign newu access aliases realDomain dir uid gid installation).1 < 0) :
    (delDomainAssign newu access aliases realDomain dir uid gid installation).2 =
      installation := by
  rw [delDomainAssign] at failed ⊢
  split at failed
  · next error => rw [if_pos error]
  · cases failed

theorem current_step {stale : List Char → List Char} {newu : Option (List Char) → Option Cdb}
    {before after : AssignProcess} {operation : AssignOperation} (current : Current before)
    (step : MeetingStep stale newu before operation after) : Current after := by
  rcases step with ⟨stepped, meets⟩
  cases operation with
  | lookup request =>
      cases stepped
      exact current_lookup current meets
  | add access aliasDomain realDomain dir uid gid =>
      rw [AssignStep, operate] at stepped
      cases ran : addDomainAssign stale newu access aliasDomain realDomain dir uid gid
          before.installation with
      | error fault =>
          rw [ran] at stepped
          cases stepped
      | ok added =>
          rw [ran] at stepped
          cases stepped
          exact current_add current (meets added ran)
  | remove access aliases realDomain dir uid gid =>
      cases stepped
      split
      · next failed =>
          rw [delDomainAssign_failed failed]
          exact current
      · exact current_of_empty rfl

/-- In a process that starts without a cached record every lookup answers what an uncached
one would read at that time, if all operations meet the condition. -/
theorem lookups_transparent (stale : List Char → List Char)
    (newu : Option (List Char) → Option Cdb) (installation : Installation)
    {operations : List AssignOperation} {process : AssignProcess}
    (run : Run (MeetingStep stale newu) ⟨installation, AssignCache.initial⟩ operations process)
    {request : AssignRequest} (meets : Meets stale newu process (.lookup request)) :
    (vgetAssign process.installation.cdb request process.cache).1 =
      uncached process.installation.cdb request := by
  apply answer_eq_uncached _ meets
  exact run.preserves Current (current_of_empty rfl)
    fun before operation after current step => current_step current step

/-! ## An alias and its real domain -/

/-- The record of the line of `b.c`, whose real domain is `a.c`. -/
def aliasData : CdbData :=
  ⟨['a', '.', 'c', Text.nul, '1', Text.nul, '1', Text.nul, '/', 'd', Text.nul], by decide⟩

def aliasCdb (domains : List (List Char)) : Cdb := fun key =>
  if key ∈ domains.map assignKey then some aliasData else none

def aliasInstallation (domains : List (List Char)) : Installation where
  files :=
    { assign := some (printFile .assign (domains.map fun domain =>
        assignLine domain ['a', '.', 'c'] ['/', 'd'] 1 1))
      rcpthosts := none
      morercpthosts := none
      virtualdomains := none
      locals := none }
  cdb := some (aliasCdb domains)

def askAll (domain : List Char) : AssignRequest := ⟨some domain, some 10, true, true⟩

/-- The real domain is answered from the cache after a lookup of its alias. -/
theorem lookups_transparent_alias :
    (vgetAssign (some (aliasCdb [['a', '.', 'c'], ['b', '.', 'c']])) (askAll ['a', '.', 'c'])
        ⟨some ['a', '.', 'c'], 4, some ['/', 'd'], 1, 1⟩).1 =
      uncached (some (aliasCdb [['a', '.', 'c'], ['b', '.', 'c']])) (askAll ['a', '.', 'c']) := by
  have domains : recordOf (some (aliasCdb [['a', '.', 'c'], ['b', '.', 'c']])) ['b', '.', 'c'] =
      some ⟨['a', '.', 'c'], 1, 1, ['/', 'd']⟩ := by decide +kernel
  have agrees : Agrees (some (aliasCdb [['a', '.', 'c'], ['b', '.', 'c']]))
      ⟨['a', '.', 'c'], 1, 1, ['/', 'd']⟩ :=
    fun _ _ => ⟨⟨['a', '.', 'c'], 1, 1, ['/', 'd']⟩, by decide +kernel⟩
  apply lookups_transparent (fun _ => [])
    (fun _ => some (aliasCdb [['a', '.', 'c'], ['b', '.', 'c']]))
    (aliasInstallation [['a', '.', 'c'], ['b', '.', 'c']])
    (Run.start.next ⟨(rfl : operate _ _ _ (.lookup (askAll ['b', '.', 'c'])) = _), _⟩)
  · rintro name asked -
    cases asked
    constructor
    · rintro dir ⟨-, -, cached⟩ size len
      cases cached
      cases len
      decide
    · intro misses
      exact absurd ⟨by decide, by decide, rfl⟩ (misses ['/', 'd'])
  · rintro name asked -
    cases asked
    constructor
    · rintro dir hits
      exact absurd hits (not_hits_initial _ _)
    · intro _ record found
      cases domains.symm.trans found
      exact agrees

/-- The real domain has no line of its own, and is found after a lookup of its alias. -/
theorem not_lookups_transparent :
    ¬ ∀ (stale : List Char → List Char) (newu : Option (List Char) → Option Cdb)
        (installation : Installation) (operations : List AssignOperation)
        (process : AssignProcess) (request : AssignRequest),
      newu installation.files.assign = installation.cdb →
      Run (AssignStep stale newu) ⟨installation, AssignCache.initial⟩ operations process →
      (vgetAssign process.installation.cdb request process.cache).1 =
        uncached process.installation.cdb request := by
  intro transparent
  have answers := transparent (fun _ => []) (fun _ => some (aliasCdb [['b', '.', 'c']]))
    (aliasInstallation [['b', '.', 'c']]) [.lookup (askAll ['b', '.', 'c'])] _
    (askAll ['a', '.', 'c']) rfl (Run.start.next rfl)
  exact absurd answers (by decide +kernel)

end Vpopmail

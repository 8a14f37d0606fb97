import Vpopmail.EntryEnumeration
import Vpopmail.Foundation.Signed

/-! # Deleting old users

`vdeloldusers` hands the users of the chosen domains to `vdeluser` whose last login is too
old. Which domains these are depends on the order of the options, and `-i` counts as `-e`.
-/

namespace Vpopmail.Vdeloldusers

open Vpopmail Text Decimal Signed

/-! ## Options -/

/-- What `getopt` returns: the letters, and any letter that it does not know. -/
inductive Opt
  | i
  | e
  | D
  | V
  | d (optarg : List Char)
  | a (optarg : List Char)
  | v
  | unknown
  deriving DecidableEq

/-- The variables that `get_options` sets. -/
structure Options where
  domain : List Char
  age : Int
  everyDomain : Bool
  verbose : Bool
  delete : Bool
  ignoreDotQmailUsers : Bool

def defaultAge : Int := 180

def Options.initial : Options := ⟨[], defaultAge, false, false, false, true⟩

/-- The cases of the switch that go on. The one of `-i` falls into the one of `-e`. -/
def Options.set (options : Options) : Opt → Options
  | .i => { options with ignoreDotQmailUsers := false, everyDomain := true }
  | .e => { options with everyDomain := true }
  | .D => { options with delete := true }
  | .V => { options with verbose := true }
  | .d optarg => { options with domain := snprintf maxBuff optarg, everyDomain := false }
  | .a optarg => { options with age := atoi optarg }
  | .v | .unknown => options

/-- The loop of `get_options`, which `-v` leaves with `vexit`. -/
def readOptions : List Opt → Options → Option Options
  | [], options => some options
  | .v :: _, _ => none
  | .unknown :: _, options => some options
  | opt :: rest, options => readOptions rest (options.set opt)

/-- `get_options`, without a result if it calls `vexit`. A command line without options has
no domain either. -/
def getOptions (opts : List Opt) : Option Options :=
  (readOptions opts .initial).filter fun options =>
    options.everyDomain || options.domain ≠ []

/-! ## Runs -/

/-- An account as it is handed to `vdeluser`: the name and the domain. -/
abbrev Account := List Char × List Char

/-- The functions that are given the buffer with the name of the domain. -/
inductive Call
  | vauthGetall
  | vgetLastauth
  | vdeluser
  deriving DecidableEq

/-- The functions of the authentication module and of the file system. `vauthGetall` has the
users of an enumeration, which the module reads when it begins. `leaves` is what a call leaves in
the buffer for a name, such as the real domain for an alias domain. -/
structure Backend (World : Type) where
  vauthGetall : World → List Char → List Vqpasswd
  vgetLastauth : World → Vqpasswd → List Char → Int
  stat : World → List Char → Bool
  vdeluser : Account → World → World
  leaves : Call → World → List Char → List Char

/-- The accounts that have been handed to `vdeluser`, and what it has made of the world. -/
structure Run (World : Type) where
  handed : List Account
  world : World

def dotQmail (mypw : Vqpasswd) : List Char := mypw.pwDir ++ "/.qmail".toList

section Functions

variable {World : Type} (backend : Backend World) (options : Options) (nowt : Int)

/-- The loop body of `deloldusers`, with the buffer of the domain. -/
def visit (state : List Char × Run World) (mypw : Vqpasswd) : List Char × Run World :=
  let run := state.2
  let domain := backend.leaves .vauthGetall run.world state.1
  if mypw.pwName = "postmaster".toList then (domain, run)
  else
    let mytime := backend.vgetLastauth run.world mypw domain
    let domain := backend.leaves .vgetLastauth run.world domain
    if mytime ≠ 0 then
      if mytime < nowt then
        if backend.stat run.world (snprintf 255 (dotQmail mypw)) &&
            options.ignoreDotQmailUsers then (domain, run)
        else if options.delete then
          (backend.leaves .vdeluser run.world domain,
            { handed := run.handed ++ [(mypw.pwName, domain)]
              world := backend.vdeluser (mypw.pwName, domain) run.world })
        else (domain, run)
      else (domain, run)
    else (domain, run)

/-- `deloldusers`. -/
def deloldusers (domain : List Char) (run : Run World) : Run World :=
  ((backend.vauthGetall run.world domain).foldl (visit backend options nowt) (domain, run)).2

/-- The loop of `process_all_domains`. -/
def processEntries :
    (rounds : Nat) → Option DomainEntry × EntryScan → Run World → Run World
  | 0, _, run => run
  | _ + 1, (none, _), run => run
  | rounds + 1, (some entry, scan), run =>
      processEntries rounds (continueScan scan)
        (deloldusers backend options nowt entry.domain run)

/-- `process_all_domains`, in more rounds than the file has lines. -/
def processAllDomains (process : AssignProcess) (scan : EntryScan) (run : Run World) :
    Run World :=
  processEntries backend options nowt ((process.installation.files.assign.getD []).length + 1)
    (getDomainEntry (some options.domain) process scan).1 run

end Functions

/-- `main`, behind the opening of the module. There is no result if `86400*Age` overflows. -/
def main {World : Type} (backend : Backend World) (opts : List Opt) (now : Int)
    (process : AssignProcess) (scan : EntryScan) (world : World) : Option (Run World) :=
  match getOptions opts with
  | none => some ⟨[], world⟩
  | some options =>
      (signed 32 (86400 * options.age)).map fun seconds =>
        let nowt := now - seconds
        if options.everyDomain then
          processAllDomains backend options nowt process scan ⟨[], world⟩
        else deloldusers backend options nowt options.domain ⟨[], world⟩

/-! ## Requests -/

section Requests

variable (opts : List Opt)

/-- The options that are read. -/
def given : List Opt := opts.takeWhile (· ≠ .unknown)

/-- The last option of a kind. -/
def lastOf {α : Type} (kind : Opt → Option α) : Option α := ((given opts).filterMap kind).getLast?

def domainArg : Opt → Option (List Char)
  | .d optarg => some optarg
  | _ => none

def ageArg : Opt → Option (List Char)
  | .a optarg => some optarg
  | _ => none

/-- `-d` and `-e`, which replace each other. -/
def selection : Opt → Option (Option (List Char))
  | .d optarg => some (some optarg)
  | .e => some none
  | _ => none

/-- The domains of `users/assign`. -/
def allDomains (process : AssignProcess) : List (List Char) :=
  (getDomainEntries [] process).1.map (·.domain)

/-- The domains that `-d` and `-e` select, none of them if only the version is printed. -/
def selected (process : AssignProcess) : List (List Char) :=
  if .v ∈ given opts then []
  else
    match lastOf opts selection with
    | none => []
    | some none => allDomains process
    | some (some domain) => if domain = [] then [] else [domain]

/-- The whole number at the front of a text. -/
def wholeNumber (text : List Char) : Int := readSigned (text.dropWhile isSpace)

/-- The age in days. -/
def ageInDays : Int := ((lastOf opts ageArg).map wholeNumber).getD defaultAge

/-- A user whose last login is too old. -/
structure Dated {World : Type} (backend : Backend World) (now : Int) (world : World)
    (mypw : Vqpasswd) (domain : List Char) : Prop where
  notPostmaster : mypw.pwName ≠ "postmaster".toList
  recorded : backend.vgetLastauth world mypw domain ≠ 0
  earlier : backend.vgetLastauth world mypw domain < now - 86400 * ageInDays opts

/-- A user who is to be deleted. -/
structure Old {World : Type} (backend : Backend World) (now : Int) (world : World)
    (mypw : Vqpasswd) (domain : List Char) : Prop
    extends Dated opts backend now world mypw domain where
  noDotQmail : .i ∉ given opts → backend.stat world (dotQmail mypw) = false

end Requests

/-! ## Deletions -/

/-- What `vdeluser` can change for the users that there were in the beginning: nothing for
other accounts, and the accounts that are the same one can only disappear. A name that is left in
the buffer is another one of the same domain. -/
structure Deletes {World : Type} (backend : Backend World) (same : Account → Account → Prop)
    (named : List Char → List Char → Prop) (first : World) : Prop where
  refl : ∀ domain, named domain domain
  leaves : ∀ call world domain name, named domain name →
    named domain (backend.leaves call world name)
  names : ∀ domain name, named domain name → ∀ world, ∀ mypw ∈ backend.vauthGetall first domain,
    backend.vgetLastauth world mypw name = backend.vgetLastauth world mypw domain ∧
      same (mypw.pwName, domain) (mypw.pwName, name)
  shrinks : ∀ account world domain mypw,
    mypw ∈ backend.vauthGetall (backend.vdeluser account world) domain →
      mypw ∈ backend.vauthGetall world domain
  logins : ∀ account world domain, ∀ mypw ∈ backend.vauthGetall first domain,
    let after := backend.vdeluser account world
    backend.vgetLastauth after mypw domain = 0 ∨
      backend.vgetLastauth after mypw domain = backend.vgetLastauth world mypw domain ∧
        backend.stat after (dotQmail mypw) = backend.stat world (dotQmail mypw)
  others : ∀ account world domain, ∀ mypw ∈ backend.vauthGetall first domain,
    ¬same (mypw.pwName, domain) account →
      let after := backend.vdeluser account world
      backend.vgetLastauth after mypw domain = backend.vgetLastauth world mypw domain ∧
        backend.stat after (dotQmail mypw) = backend.stat world (dotQmail mypw) ∧
        (mypw ∈ backend.vauthGetall world domain → mypw ∈ backend.vauthGetall after domain)

/-- The accounts handed to `vdeluser` are those of the old users of the selected domains. -/
structure DeletesOld (opts : List Opt) {World : Type} (backend : Backend World)
    (same : Account → Account → Prop) (named : List Char → List Char → Prop) (now : Int)
    (process : AssignProcess) (first : World) (handed : List Account) : Prop where
  delete : handed ≠ [] → .D ∈ given opts
  old : ∀ account ∈ handed, ∃ domain ∈ selected opts process, named domain account.2 ∧
    ∃ mypw ∈ backend.vauthGetall first domain, mypw.pwName = account.1 ∧
      Old opts backend now first mypw domain
  every : .D ∈ given opts → ∀ domain ∈ selected opts process,
    ∀ mypw ∈ backend.vauthGetall first domain, Old opts backend now first mypw domain →
      ∃ account ∈ handed, same (mypw.pwName, domain) account

/-- The names of the `.qmail` files that `-D` without `-i` asks for fit the buffer. -/
def FitsBuffer (opts : List Opt) {World : Type} (backend : Backend World) (now : Int)
    (first : World) (domains : List (List Char)) : Prop :=
  .D ∈ given opts → .i ∉ given opts → ∀ domain ∈ domains,
    ∀ mypw ∈ backend.vauthGetall first domain, Dated opts backend now first mypw domain →
      (dotQmail mypw).length < 255

/-- A command line that deletes the old users whatever the accounts and the domains are, as
long as the names of their `.qmail` files fit the buffer. -/
def Right (opts : List Opt) : Prop :=
  ∀ (World : Type) (backend : Backend World) (same : Account → Account → Prop)
    (named : List Char → List Char → Prop) (now : Int) (process : AssignProcess)
    (scan : EntryScan) (first : World),
    Deletes backend same named first →
    FitsBuffer opts backend now first (selected opts process) →
    ∃ run, main backend opts now process scan first = some run ∧
      DeletesOld opts backend same named now process first run.handed

/-! ## Reading the options -/

section Reading

/-- `-d`, `-e` and `-i`, by what they make of `EveryDomain`. -/
def turn : Opt → Option Bool
  | .d _ => some false
  | .e | .i => some true
  | _ => none

/-- What the loop makes of the variables. -/
structure Reads (opts : List Opt) (before after : Options) : Prop where
  domain : after.domain = ((lastOf opts domainArg).map (snprintf maxBuff)).getD before.domain
  age : after.age = ((lastOf opts ageArg).map atoi).getD before.age
  everyDomain : after.everyDomain = ((lastOf opts turn).map id).getD before.everyDomain
  delete : after.delete = true ↔ before.delete = true ∨ .D ∈ given opts
  ignoreDotQmailUsers : after.ignoreDotQmailUsers = true ↔
    before.ignoreDotQmailUsers = true ∧ .i ∉ given opts

theorem given_cons {opt : Opt} (known : opt ≠ .unknown) (opts : List Opt) :
    given (opt :: opts) = opt :: given opts :=
  List.takeWhile_cons_of_pos (decide_eq_true known)

theorem given_unknown (opts : List Opt) : given (.unknown :: opts) = [] :=
  List.takeWhile_cons_of_neg (by decide)

/-- The last option of a kind replaces those in front of it. -/
theorem map_lastOf_cons {α β : Type} {kind : Opt → Option α} (value : α → β) {opt : Opt}
    (known : opt ≠ .unknown) (opts : List Opt) (default : β) :
    ((lastOf (opt :: opts) kind).map value).getD default =
      ((lastOf opts kind).map value).getD (((kind opt).map value).getD default) := by
  rw [lastOf, given_cons known]
  cases found : kind opt with
  | none =>
      rw [List.filterMap_cons_none found]
      rfl
  | some arg =>
      rw [List.filterMap_cons_some found, List.getLast?_cons, lastOf]
      cases ((given opts).filterMap kind).getLast? <;> rfl

theorem reads_nil {opts : List Opt} (none : given opts = []) (options : Options) :
    Reads opts options options := by
  constructor
  iterate 3
    rw [lastOf, none]
    rfl
  · rw [none]
    exact ⟨.inl, fun either => either.resolve_right List.not_mem_nil⟩
  · rw [none]
    exact ⟨fun ignores => ⟨ignores, List.not_mem_nil⟩, And.left⟩

theorem Reads.cons {opt : Opt} {opts : List Opt} {before after : Options}
    (known : opt ≠ .unknown) (other : opt ≠ .v) (reads : Reads opts (before.set opt) after) :
    Reads (opt :: opts) before after where
  domain := by
    rw [reads.domain, map_lastOf_cons _ known]
    cases opt <;> rfl
  age := by
    rw [reads.age, map_lastOf_cons _ known]
    cases opt <;> rfl
  everyDomain := by
    rw [reads.everyDomain, map_lastOf_cons _ known]
    cases opt <;> rfl
  delete := by
    rw [reads.delete, given_cons known, List.mem_cons]
    cases opt <;> simp [Options.set]
  ignoreDotQmailUsers := by
    rw [reads.ignoreDotQmailUsers, given_cons known, List.mem_cons]
    cases opt <;> simp [Options.set]

/-- The loop stops at `-v`, and otherwise takes the last option of each kind. -/
theorem readOptions_spec (opts : List Opt) (before : Options) :
    if .v ∈ given opts then readOptions opts before = none
    else ∃ after, readOptions opts before = some after ∧ Reads opts before after := by
  induction opts generalizing before with
  | nil => exact ⟨before, rfl, reads_nil rfl before⟩
  | cons opt opts induction =>
      by_cases version : opt = .v
      · rw [version, given_cons (by decide), if_pos List.mem_cons_self]
        rfl
      by_cases unknown : opt = .unknown
      · rw [unknown, given_unknown, if_neg List.not_mem_nil]
        exact ⟨before, rfl, reads_nil (given_unknown opts) before⟩
      have rest := induction (before.set opt)
      have step : readOptions (opt :: opts) before = readOptions opts (before.set opt) := by
        cases opt <;> first | rfl | contradiction
      have member : .v ∈ given (opt :: opts) ↔ .v ∈ given opts := by
        rw [given_cons unknown, List.mem_cons]
        exact or_iff_right (Ne.symm version)
      rw [step]
      by_cases later : .v ∈ given opts
      · rw [if_pos later] at rest
        rwa [if_pos (member.mpr later)]
      · rw [if_neg later] at rest
        rw [if_neg (mt member.mp later)]
        rcases rest with ⟨after, read, reads⟩
        exact ⟨after, read, reads.cons unknown version⟩

end Reading

/-! ## Runs of deletions -/

/-- The variables are those that were asked for, and so is the time. -/
structure Asked (opts : List Opt) (now : Int) (options : Options) (nowt : Int) : Prop where
  delete : options.delete = true ↔ .D ∈ given opts
  ignoreDotQmailUsers : options.ignoreDotQmailUsers = true ↔ .i ∉ given opts
  nowt : nowt = now - 86400 * ageInDays opts

section Runs

variable {opts : List Opt} {World : Type} {backend : Backend World}
  {same : Account → Account → Prop} {named : List Char → List Char → Prop} {options : Options}
  {now nowt : Int} {first : World} {domains : List (List Char)} {domain buffer : List Char}
  {run : Run World} {mypw : Vqpasswd}

/-- The tests find what they found in the beginning. -/
structure Untouched (backend : Backend World) (first world : World) (mypw : Vqpasswd)
    (domain : List Char) : Prop where
  lastauth : backend.vgetLastauth world mypw domain = backend.vgetLastauth first mypw domain
  dotQmail : backend.stat world (dotQmail mypw) = backend.stat first (dotQmail mypw)

/-- An account that is the user's has been handed over. -/
def Covered (same : Account → Account → Prop) (handed : List Account) (mypw : Vqpasswd)
    (domain : List Char) : Prop :=
  ∃ account ∈ handed, same (mypw.pwName, domain) account

/-- What holds between the users. -/
structure Sound (opts : List Opt) (backend : Backend World) (same : Account → Account → Prop)
    (named : List Char → List Char → Prop) (now : Int) (first : World)
    (domains : List (List Char)) (run : Run World) : Prop where
  delete : run.handed ≠ [] → .D ∈ given opts
  old : ∀ account ∈ run.handed, ∃ domain ∈ domains, named domain account.2 ∧
    ∃ mypw ∈ backend.vauthGetall first domain, mypw.pwName = account.1 ∧
      Old opts backend now first mypw domain
  shrinks : ∀ domain, ∀ mypw ∈ backend.vauthGetall run.world domain,
    mypw ∈ backend.vauthGetall first domain
  logins : ∀ domain, ∀ mypw ∈ backend.vauthGetall first domain,
    backend.vgetLastauth run.world mypw domain = 0 ∨
      Untouched backend first run.world mypw domain
  kept : ∀ domain, ∀ mypw ∈ backend.vauthGetall first domain,
    Covered same run.handed mypw domain ∨
      Untouched backend first run.world mypw domain ∧
        mypw ∈ backend.vauthGetall run.world domain

theorem sound_initial : Sound opts backend same named now first domains ⟨[], first⟩ where
  delete := fun some => absurd rfl some
  old := fun _ member => absurd member List.not_mem_nil
  shrinks := fun _ _ member => member
  logins := fun _ _ _ => .inr ⟨rfl, rfl⟩
  kept := fun _ _ member => .inr ⟨⟨rfl, rfl⟩, member⟩

theorem Untouched.dated_iff {world : World}
    (untouched : Untouched backend first world mypw domain) :
    Dated opts backend now world mypw domain ↔ Dated opts backend now first mypw domain := by
  constructor
  · rintro ⟨notPostmaster, recorded, earlier⟩
    rw [untouched.lastauth] at recorded earlier
    exact ⟨notPostmaster, recorded, earlier⟩
  · rintro ⟨notPostmaster, recorded, earlier⟩
    rw [← untouched.lastauth] at recorded earlier
    exact ⟨notPostmaster, recorded, earlier⟩

theorem Untouched.old_iff {world : World} (untouched : Untouched backend first world mypw domain) :
    Old opts backend now world mypw domain ↔ Old opts backend now first mypw domain := by
  constructor
  · rintro ⟨dated, noDotQmail⟩
    rw [untouched.dotQmail] at noDotQmail
    exact ⟨untouched.dated_iff.mp dated, noDotQmail⟩
  · rintro ⟨dated, noDotQmail⟩
    rw [← untouched.dotQmail] at noDotQmail
    exact ⟨untouched.dated_iff.mpr dated, noDotQmail⟩

/-- The last login is the same by every name of the domain. -/
theorem Deletes.dated_iff (deletes : Deletes backend same named first)
    (member : mypw ∈ backend.vauthGetall first domain) {name : List Char}
    (other : named domain name) {world : World} :
    Dated opts backend now world mypw name ↔ Dated opts backend now world mypw domain := by
  have equal := (deletes.names domain name other world mypw member).1
  constructor
  · rintro ⟨notPostmaster, recorded, earlier⟩
    rw [equal] at recorded earlier
    exact ⟨notPostmaster, recorded, earlier⟩
  · rintro ⟨notPostmaster, recorded, earlier⟩
    rw [← equal] at recorded earlier
    exact ⟨notPostmaster, recorded, earlier⟩

theorem Deletes.old_iff (deletes : Deletes backend same named first)
    (member : mypw ∈ backend.vauthGetall first domain) {name : List Char}
    (other : named domain name) {world : World} :
    Old opts backend now world mypw name ↔ Old opts backend now world mypw domain :=
  ⟨fun old => ⟨(deletes.dated_iff member other).mp old.toDated, old.noDotQmail⟩,
    fun old => ⟨(deletes.dated_iff member other).mpr old.toDated, old.noDotQmail⟩⟩

/-- A round hands over a user who passes the tests. -/
theorem visit_old (asked : Asked opts now options nowt)
    (short : .i ∉ given opts → (dotQmail mypw).length < 255)
    (old : Old opts backend now run.world mypw (backend.leaves .vauthGetall run.world buffer))
    (delete : .D ∈ given opts) :
    visit backend options nowt (buffer, run) mypw =
      let domain := backend.leaves .vgetLastauth run.world
        (backend.leaves .vauthGetall run.world buffer)
      (backend.leaves .vdeluser run.world domain,
        { handed := run.handed ++ [(mypw.pwName, domain)]
          world := backend.vdeluser (mypw.pwName, domain) run.world }) := by
  have earlier := old.earlier
  rw [← asked.nowt] at earlier
  have goesOn : ¬(backend.stat run.world (snprintf 255 (dotQmail mypw)) &&
      options.ignoreDotQmailUsers) = true := by
    rw [Bool.and_eq_true]
    rintro ⟨there, ignores⟩
    have ignored := asked.ignoreDotQmailUsers.mp ignores
    have path : snprintf 255 (dotQmail mypw) = dotQmail mypw :=
      List.take_of_length_le (Nat.le_sub_one_of_lt (short ignored))
    rw [path, old.noDotQmail ignored] at there
    cases there
  simp only [visit]
  rw [if_neg old.notPostmaster, if_pos old.recorded, if_pos earlier, if_neg goesOn,
    if_pos (asked.delete.mpr delete)]

/-- A round passes over any other one. -/
theorem visit_other (asked : Asked opts now options nowt)
    (short : .D ∈ given opts → .i ∉ given opts →
      Dated opts backend now run.world mypw (backend.leaves .vauthGetall run.world buffer) →
        (dotQmail mypw).length < 255)
    (other : ¬(Old opts backend now run.world mypw
      (backend.leaves .vauthGetall run.world buffer) ∧ .D ∈ given opts)) :
    visit backend options nowt (buffer, run) mypw =
        (backend.leaves .vauthGetall run.world buffer, run) ∨
      visit backend options nowt (buffer, run) mypw =
        (backend.leaves .vgetLastauth run.world (backend.leaves .vauthGetall run.world buffer),
          run) := by
  simp only [visit]
  split
  · exact .inl rfl
  next notPostmaster =>
  right
  split
  next recorded =>
    split
    next earlier =>
      split
      · rfl
      next goesOn =>
        split
        next delete =>
          rw [asked.nowt] at earlier
          have dated : Dated opts backend now run.world mypw
              (backend.leaves .vauthGetall run.world buffer) := ⟨notPostmaster, recorded, earlier⟩
          have deleting := asked.delete.mp delete
          refine absurd ⟨⟨dated, ?_⟩, deleting⟩ other
          intro ignores
          have path : snprintf 255 (dotQmail mypw) = dotQmail mypw :=
            List.take_of_length_le (Nat.le_sub_one_of_lt (short deleting ignores dated))
          rw [path, asked.ignoreDotQmailUsers.mpr ignores, Bool.and_true] at goesOn
          exact Bool.eq_false_iff.mpr goesOn
        · rfl
    · rfl
  · rfl

theorem Covered.mono {handed more : List Account} (covered : Covered same handed mypw domain)
    (subset : handed ⊆ more) : Covered same more mypw domain := by
  rcases covered with ⟨account, member, is⟩
  exact ⟨account, subset member, is⟩

/-- A deletion keeps the invariant. -/
theorem Sound.delete_old (deletes : Deletes backend same named first)
    (sound : Sound opts backend same named now first domains run) (selected : domain ∈ domains)
    {name : List Char} (other : named domain name)
    (member : mypw ∈ backend.vauthGetall first domain)
    (old : Old opts backend now run.world mypw domain) (delete : .D ∈ given opts) :
    Sound opts backend same named now first domains
      { handed := run.handed ++ [(mypw.pwName, name)]
        world := backend.vdeluser (mypw.pwName, name) run.world } where
  delete := fun _ => delete
  old := by
    have untouched := (sound.logins domain mypw member).resolve_left old.recorded
    intro account handed
    rcases List.mem_append.mp handed with before | last
    · exact sound.old account before
    · rw [List.mem_singleton.mp last]
      exact ⟨domain, selected, other, mypw, member, rfl, untouched.old_iff.mp old⟩
  shrinks := fun other user present =>
    sound.shrinks other user (deletes.shrinks _ _ other user present)
  logins := by
    intro other user present
    rcases deletes.logins (mypw.pwName, name) run.world other user present with gone | kept
    · exact .inl gone
    · rcases sound.logins other user present with gone | untouched
      · exact .inl (kept.1.trans gone)
      · exact .inr ⟨kept.1.trans untouched.lastauth, kept.2.trans untouched.dotQmail⟩
  kept := by
    intro other user present
    by_cases is : same (user.pwName, other) (mypw.pwName, name)
    · exact .inl ⟨_, List.mem_append_right _ List.mem_cons_self, is⟩
    rcases deletes.others (mypw.pwName, name) run.world other user present is with
      ⟨lastauth, dotQmail, stays⟩
    rcases sound.kept other user present with covered | ⟨untouched, listed⟩
    · exact .inl (covered.mono (List.subset_append_left _ _))
    · exact .inr ⟨⟨lastauth.trans untouched.lastauth, dotQmail.trans untouched.dotQmail⟩,
        stays listed⟩

/-- What a part of the run does for users of a domain. -/
structure Handles (opts : List Opt) (backend : Backend World)
    (same : Account → Account → Prop) (named : List Char → List Char → Prop) (now : Int)
    (first : World) (domains : List (List Char)) (run after : Run World)
    (users : List Vqpasswd) (domain : List Char) : Prop where
  sound : Sound opts backend same named now first domains after
  grows : run.handed ⊆ after.handed
  covers : .D ∈ given opts → ∀ mypw ∈ users, Old opts backend now first mypw domain →
    Covered same after.handed mypw domain

/-- A round leaves a name of the domain in the buffer. -/
theorem visit_handles (deletes : Deletes backend same named first)
    (asked : Asked opts now options nowt) (short : FitsBuffer opts backend now first domains)
    (sound : Sound opts backend same named now first domains run) (selected : domain ∈ domains)
    (other : named domain buffer) (member : mypw ∈ backend.vauthGetall first domain) :
    Handles opts backend same named now first domains run
        (visit backend options nowt (buffer, run) mypw).2 [mypw] domain ∧
      named domain (visit backend options nowt (buffer, run) mypw).1 := by
  have listed := deletes.leaves .vauthGetall run.world domain buffer other
  have asks := deletes.leaves .vgetLastauth run.world domain _ listed
  have fits : .D ∈ given opts → .i ∉ given opts →
      Dated opts backend now run.world mypw (backend.leaves .vauthGetall run.world buffer) →
        (dotQmail mypw).length < 255 := by
    intro delete ignores dated
    have here := (deletes.dated_iff member listed).mp dated
    have untouched := (sound.logins domain mypw member).resolve_left here.recorded
    exact short delete ignores domain selected mypw member (untouched.dated_iff.mp here)
  by_cases passes : Old opts backend now run.world mypw
      (backend.leaves .vauthGetall run.world buffer) ∧ .D ∈ given opts
  · rw [visit_old asked (fun ignores => fits passes.2 ignores passes.1.toDated) passes.1 passes.2]
    have old := (deletes.old_iff member listed).mp passes.1
    refine ⟨⟨sound.delete_old deletes selected asks member old passes.2,
      List.subset_append_left _ _, ?_⟩, deletes.leaves _ _ _ _ asks⟩
    intro _ user only _
    rw [List.mem_singleton.mp only]
    exact ⟨_, List.mem_append_right _ List.mem_cons_self,
      (deletes.names domain _ asks run.world mypw member).2⟩
  · have left : Handles opts backend same named now first domains run run [mypw] domain := by
      refine ⟨sound, List.Subset.refl _, ?_⟩
      intro delete user only old
      rw [List.mem_singleton.mp only] at old ⊢
      rcases sound.kept domain mypw member with covered | ⟨untouched, _⟩
      · exact covered
      · have still := (deletes.old_iff member listed).mpr (untouched.old_iff.mpr old)
        exact absurd ⟨still, delete⟩ passes
    rcases visit_other asked fits passes with same | same
    · rw [same]
      exact ⟨left, listed⟩
    · rw [same]
      exact ⟨left, asks⟩

/-- The loop of `deloldusers`, over users that there were in the beginning. -/
theorem foldl_visit_handles (deletes : Deletes backend same named first)
    (asked : Asked opts now options nowt) (short : FitsBuffer opts backend now first domains)
    (selected : domain ∈ domains) (users : List Vqpasswd)
    (present : ∀ mypw ∈ users, mypw ∈ backend.vauthGetall first domain)
    (other : named domain buffer)
    (sound : Sound opts backend same named now first domains run) :
    Handles opts backend same named now first domains run
      (users.foldl (visit backend options nowt) (buffer, run)).2 users domain := by
  induction users generalizing buffer run with
  | nil => exact ⟨sound, List.Subset.refl _, fun _ _ member => absurd member List.not_mem_nil⟩
  | cons mypw users induction =>
      have member := present mypw List.mem_cons_self
      rcases visit_handles deletes asked short sound selected other member with ⟨head, left⟩
      have rest := induction (fun user later => present user (List.mem_cons_of_mem _ later))
        left head.sound
      refine ⟨rest.sound, List.Subset.trans head.grows rest.grows, ?_⟩
      intro delete user either old
      rcases List.mem_cons.mp either with rfl | later
      · exact (head.covers delete user List.mem_cons_self old).mono rest.grows
      · exact rest.covers delete user later old

theorem deloldusers_handles (deletes : Deletes backend same named first)
    (asked : Asked opts now options nowt) (short : FitsBuffer opts backend now first domains)
    (selected : domain ∈ domains)
    (sound : Sound opts backend same named now first domains run) :
    Handles opts backend same named now first domains run
      (deloldusers backend options nowt domain run) (backend.vauthGetall first domain) domain := by
  have loop := foldl_visit_handles deletes asked short selected
    (backend.vauthGetall run.world domain) (sound.shrinks domain) (deletes.refl domain) sound
  refine ⟨loop.sound, loop.grows, ?_⟩
  intro delete mypw member old
  -- A user whom the enumeration does not list any more has been handed over before.
  rcases sound.kept domain mypw member with covered | ⟨_, listed⟩
  · exact covered.mono loop.grows
  · exact loop.covers delete mypw listed old

/-- The domains one after the other. -/
theorem foldl_deloldusers_handles (deletes : Deletes backend same named first)
    (asked : Asked opts now options nowt) (short : FitsBuffer opts backend now first domains)
    (list : List (List Char)) (selected : list ⊆ domains)
    (sound : Sound opts backend same named now first domains run) :
    ∀ after, after = list.foldl (fun run domain => deloldusers backend options nowt domain run)
        run →
      Sound opts backend same named now first domains after ∧ run.handed ⊆ after.handed ∧
        (.D ∈ given opts → ∀ domain ∈ list, ∀ mypw ∈ backend.vauthGetall first domain,
          Old opts backend now first mypw domain → Covered same after.handed mypw domain) := by
  induction list generalizing run with
  | nil =>
      rintro after rfl
      exact ⟨sound, List.Subset.refl _, fun _ _ member => absurd member List.not_mem_nil⟩
  | cons domain list induction =>
      intro after is
      have head := deloldusers_handles deletes asked short (selected List.mem_cons_self) sound
      rcases induction (fun other later => selected (List.mem_cons_of_mem _ later)) head.sound
        after is with ⟨sound, grows, covers⟩
      refine ⟨sound, List.Subset.trans head.grows grows, ?_⟩
      intro delete other either mypw member old
      rcases List.mem_cons.mp either with rfl | later
      · exact (head.covers delete mypw member old).mono grows
      · exact covers delete other later mypw member old

/-- The loop takes the domains that the enumeration returns. -/
theorem processEntries_eq (rounds : Nat) (scan : EntryScan)
    (enough : (entriesLeft scan).length < rounds) :
    processEntries backend options nowt rounds (continueScan scan) run =
      ((entriesLeft scan).map (·.domain)).foldl
        (fun run domain => deloldusers backend options nowt domain run) run := by
  induction rounds generalizing scan run with
  | zero => exact absurd enough (Nat.not_lt_zero _)
  | succ rounds induction =>
      have next := continueScan_spec scan
      generalize continueScan scan = cursor at next
      rcases cursor with ⟨entry, after⟩
      cases left : entriesLeft scan with
      | nil =>
          rw [left] at next
          have ended : entry = none := next.1
          rw [ended]
          rfl
      | cons head entries =>
          rw [left] at next enough
          have found : entry = some head := next.1
          rw [found, processEntries]
          have rest : entriesLeft after = entries := next.2
          have fewer : (entriesLeft after).length < rounds := by
            rw [rest]
            exact Nat.lt_of_succ_lt_succ enough
          rw [induction after fewer, rest]
          rfl

theorem processAllDomains_eq (process : AssignProcess) (scan : EntryScan) :
    processAllDomains backend options nowt process scan run =
      ((getDomainEntries options.domain process).1.map (·.domain)).foldl
        (fun run domain => deloldusers backend options nowt domain run) run := by
  rw [processAllDomains, getDomainEntry, getDomainEntries_eq]
  apply processEntries_eq
  rw [Nat.lt_succ_iff]
  exact (List.length_filterMap_le _ _).trans (Stream.length_fgetsLoop_le _ _)

/-- The domains whose users are visited. -/
def visited (options : Options) (process : AssignProcess) : List (List Char) :=
  if options.everyDomain then (getDomainEntries options.domain process).1.map (·.domain)
  else [options.domain]

theorem main_eq {opts : List Opt} {options : Options} (read : getOptions opts = some options)
    (now : Int) (process : AssignProcess) (scan : EntryScan) (first : World) :
    main backend opts now process scan first =
      (signed 32 (86400 * options.age)).map fun seconds =>
        (visited options process).foldl
          (fun run domain => deloldusers backend options (now - seconds) domain run)
          ⟨[], first⟩ := by
  rw [main, read]
  refine congrArg (fun body => (signed 32 (86400 * options.age)).map body) ?_
  funext seconds
  rw [visited]
  simp only
  split
  · rw [processAllDomains_eq]
  · rfl

/-- Without `-D` nothing is deleted. -/
theorem foldl_deloldusers_kept (keeps : options.delete = false) (list : List (List Char))
    (run : Run World) :
    list.foldl (fun run domain => deloldusers backend options nowt domain run) run = run := by
  have visits : ∀ buffer mypw, (visit backend options nowt (buffer, run) mypw).2 = run := by
    intro buffer mypw
    simp only [visit, keeps, Bool.false_eq_true, if_false, ite_self, apply_ite Prod.snd]
  have rounds : ∀ (users : List Vqpasswd) buffer,
      (users.foldl (visit backend options nowt) (buffer, run)).2 = run := by
    intro users
    induction users with
    | nil => exact fun _ => rfl
    | cons mypw users induction =>
        intro buffer
        have same : visit backend options nowt (buffer, run) mypw =
            ((visit backend options nowt (buffer, run) mypw).1, run) :=
          Prod.ext rfl (visits buffer mypw)
        rw [List.foldl_cons, same]
        exact induction _
  have loops : ∀ domain, deloldusers backend options nowt domain run = run :=
    fun domain => rounds _ domain
  exact List.foldl_fixed' loops list

end Runs

/-! ## Command lines that mean what they say -/

section Meaning

variable (opts : List Opt)

/-- `EveryDomain`, which the last of `-d`, `-e` and `-i` decides. -/
def everyDomain : Bool := (lastOf opts turn).getD false

/-- The domain of the last `-d`. -/
def lastDomain : List Char := (lastOf opts domainArg).getD []

/-- The age as an `int`. -/
def intAge : Int := ((lastOf opts ageArg).map atoi).getD defaultAge

/-- The command lines that stop without visiting anyone, those whose age in seconds is an
`int` and that delete nothing, and those where besides the age is right and either `-d` comes
behind every `-e` and `-i` with a domain that fits, or `-e` behind every `-d` and no domain
was given before. -/
def AsMeant : Prop :=
  .v ∈ given opts ∨ (everyDomain opts = false ∧ lastDomain opts = []) ∨
    (-2 ^ 31 ≤ 86400 * intAge opts ∧ 86400 * intAge opts < 2 ^ 31) ∧
      (.D ∈ given opts → ageInDays opts ≤ 24855 ∧
        if everyDomain opts then lastOf opts selection = some none ∧ lastDomain opts = []
        else (lastDomain opts).length < maxBuff)

end Meaning

section Options

variable {opts : List Opt}

theorem getLast?_filterMap_concat {α β : Type} (kind : α → Option β) (front : List α) (last : α) :
    ((front ++ [last]).filterMap kind).getLast? =
      (kind last).or (front.filterMap kind).getLast? := by
  rw [List.filterMap_append, List.getLast?_append]
  cases found : kind last with
  | none => rw [List.filterMap_cons_none found, List.filterMap_nil, List.getLast?_nil]
  | some value => rw [List.filterMap_cons_some found, List.filterMap_nil, List.getLast?_singleton]

/-- The last `-d` or `-e` is an `-e` or the last `-d`, and it is this one if the last of `-d`,
`-e` and `-i` is a `-d`. -/
theorem selection_cases (opts : List Opt) :
    (lastOf opts selection = some none ∧ everyDomain opts = true) ∨
      lastOf opts selection = (lastOf opts domainArg).map some := by
  rw [everyDomain, lastOf, lastOf, lastOf]
  induction given opts using List.reverseRecOn with
  | nil => exact .inr rfl
  | append_singleton front last induction =>
      simp only [getLast?_filterMap_concat]
      cases last with
      | i => exact induction.imp_left fun before => ⟨before.1, rfl⟩
      | e => exact .inl ⟨rfl, rfl⟩
      | d optarg => exact .inr rfl
      | D | V | v | unknown | a optarg => exact induction

theorem selection_of_not_everyDomain (one : everyDomain opts = false) :
    lastOf opts selection = (lastOf opts domainArg).map some := by
  rcases selection_cases opts with ⟨_, every⟩ | same
  · rw [one] at every
    cases every
  · exact same

/-- What `get_options` returns. -/
theorem getOptions_spec (goes : .v ∉ given opts)
    (chooses : ¬(everyDomain opts = false ∧ lastDomain opts = [])) :
    ∃ options, getOptions opts = some options ∧ Reads opts .initial options ∧
      options.domain = snprintf maxBuff (lastDomain opts) ∧ options.age = intAge opts ∧
      options.everyDomain = everyDomain opts := by
  have spec := readOptions_spec opts .initial
  rw [if_neg goes] at spec
  rcases spec with ⟨options, read, reads⟩
  have domain : options.domain = snprintf maxBuff (lastDomain opts) := by
    rw [reads.domain, lastDomain]
    cases lastOf opts domainArg <;> rfl
  have every : options.everyDomain = everyDomain opts := by
    rw [reads.everyDomain, everyDomain, Option.map_id_fun]
    rfl
  refine ⟨options, ?_, reads, domain, reads.age, every⟩
  rw [getOptions, read, Option.filter_some, if_pos]
  rw [every, domain, Bool.or_eq_true, decide_eq_true_iff]
  by_cases all : everyDomain opts = true
  · exact .inl all
  · refine .inr fun none => chooses ⟨Bool.eq_false_iff.mpr all, ?_⟩
    cases same : lastDomain opts with
    | nil => rfl
    | cons char rest =>
        rw [same, snprintf, maxBuff, List.take_succ_cons] at none
        cases none

theorem getOptions_none (stops : .v ∈ given opts ∨ everyDomain opts = false ∧ lastDomain opts = []) :
    getOptions opts = none := by
  have spec := readOptions_spec opts .initial
  rw [getOptions]
  by_cases version : .v ∈ given opts
  · rw [if_pos version] at spec
    rw [spec]
    rfl
  · rw [if_neg version] at spec
    rcases spec with ⟨options, read, reads⟩
    rcases stops.resolve_left version with ⟨one, noDomain⟩
    have domain : options.domain = [] := by
      rw [reads.domain]
      rw [lastDomain] at noDomain
      cases found : lastOf opts domainArg with
      | none => rfl
      | some name =>
          rw [found, Option.getD_some] at noDomain
          rw [noDomain]
          rfl
    have every : options.everyDomain = false := by
      rw [reads.everyDomain, Option.map_id_fun]
      exact one
    rw [read, Option.filter_some, every, domain]
    rfl

theorem selected_of_stops (process : AssignProcess)
    (stops : .v ∈ given opts ∨ everyDomain opts = false ∧ lastDomain opts = []) :
    selected opts process = [] := by
  rw [selected]
  split
  · rfl
  next version =>
  rcases stops.resolve_left version with ⟨one, noDomain⟩
  rw [selection_of_not_everyDomain one]
  rw [lastDomain] at noDomain
  cases found : lastOf opts domainArg with
  | none => rfl
  | some name =>
      rw [found, Option.getD_some] at noDomain
      exact if_pos noDomain

/-- An age that fits is read as what it is. -/
theorem intAge_eq (nonneg : 0 ≤ ageInDays opts) (fits : ageInDays opts ≤ 24855) :
    intAge opts = ageInDays opts := by
  rw [ageInDays] at nonneg fits ⊢
  rw [intAge]
  cases found : lastOf opts ageArg with
  | none => rfl
  | some text =>
      rw [found, Option.map_some, Option.getD_some] at nonneg fits
      have read : strtol text = wholeNumber text := by
        rw [strtol, ← wholeNumber, longMin, longMax]
        omega
      rw [Option.map_some, Option.map_some, Option.getD_some, Option.getD_some, atoi, read]
      exact Int.bmod_eq_of_le (by omega) (by omega)

theorem selected_of_not_everyDomain (process : AssignProcess) (goes : .v ∉ given opts)
    (one : everyDomain opts = false) (nonempty : lastDomain opts ≠ []) :
    selected opts process = [lastDomain opts] := by
  rw [selected, if_neg goes, selection_of_not_everyDomain one]
  rw [lastDomain] at nonempty ⊢
  cases found : lastOf opts domainArg with
  | none =>
      rw [found] at nonempty
      exact absurd rfl nonempty
  | some name =>
      rw [found, Option.getD_some] at nonempty
      exact if_neg nonempty

/-- The domains that are visited are those that are selected. -/
theorem visited_eq_selected {options : Options} (process : AssignProcess)
    (goes : .v ∉ given opts) (chooses : ¬(everyDomain opts = false ∧ lastDomain opts = []))
    (domain : options.domain = snprintf maxBuff (lastDomain opts))
    (every : options.everyDomain = everyDomain opts)
    (meant : if everyDomain opts then lastOf opts selection = some none ∧ lastDomain opts = []
      else (lastDomain opts).length < maxBuff) :
    visited options process = selected opts process := by
  rw [visited, every, domain]
  cases all : everyDomain opts with
  | true =>
      rw [all, if_pos rfl] at meant
      rw [selected, if_neg goes, meant.1, meant.2]
      rfl
  | false =>
      rw [all, if_neg Bool.false_ne_true] at meant
      have whole : snprintf maxBuff (lastDomain opts) = lastDomain opts :=
        List.take_of_length_le (Nat.le_sub_one_of_lt meant)
      have nonempty : lastDomain opts ≠ [] := fun none => chooses ⟨all, none⟩
      rw [if_neg Bool.false_ne_true, whole, selected_of_not_everyDomain process goes all nonempty]

/-- These command lines delete the old users of the selected domains. -/
theorem right_of_asMeant (nonneg : 0 ≤ ageInDays opts) (meant : AsMeant opts) : Right opts := by
  intro World backend same named now process scan first deletes short
  have nothing : ∀ list, (.D ∈ given opts → list = []) → ∀ run : Run World,
      run.handed = [] → selected opts process = list →
      DeletesOld opts backend same named now process first run.handed := by
    intro list none run handed equal
    rw [handed]
    refine ⟨fun some => absurd rfl some, fun _ member => absurd member List.not_mem_nil, ?_⟩
    intro delete domain member
    rw [equal, none delete] at member
    exact absurd member List.not_mem_nil
  by_cases stops : .v ∈ given opts ∨ everyDomain opts = false ∧ lastDomain opts = []
  · refine ⟨⟨[], first⟩, ?_, nothing [] (fun _ => rfl) _ rfl (selected_of_stops process stops)⟩
    rw [main, getOptions_none stops]
  have goes : .v ∉ given opts := fun version => stops (.inl version)
  have chooses : ¬(everyDomain opts = false ∧ lastDomain opts = []) := fun none =>
    stops (.inr none)
  rcases (meant.resolve_left goes).resolve_left chooses with ⟨⟨lower, upper⟩, means⟩
  rcases getOptions_spec goes chooses with ⟨options, read, reads, domain, age, every⟩
  rw [← age] at lower upper
  have seconds : signed 32 (86400 * options.age) = some (86400 * options.age) :=
    signed_of_fits lower upper
  rw [main_eq read, seconds, Option.map_some]
  refine ⟨_, rfl, ?_⟩
  by_cases delete : .D ∈ given opts
  · rcases means delete with ⟨fits, chosen⟩
    have asked : Asked opts now options (now - 86400 * options.age) := by
      refine ⟨?_, ?_, ?_⟩
      · rw [reads.delete]
        exact or_iff_right Bool.false_ne_true
      · rw [reads.ignoreDotQmailUsers]
        exact and_iff_right rfl
      · rw [age, intAge_eq nonneg fits]
    have visits := visited_eq_selected process goes chooses domain every chosen
    rcases foldl_deloldusers_handles deletes asked short (selected opts process)
      (List.Subset.refl _) sound_initial _ rfl with ⟨sound, _, covers⟩
    rw [visits]
    exact ⟨sound.delete, sound.old, covers⟩
  · have keeps : options.delete = false := by
      rw [Bool.eq_false_iff]
      intro deletes
      rcases reads.delete.mp deletes with initial | asked
      · cases initial
      · exact delete asked
    rw [foldl_deloldusers_kept keeps]
    exact nothing _ (fun asked => absurd asked delete) _ rfl rfl

/-! ## Command lines that do not -/

/-- An account that has not been used for a long time. -/
def oldUser : Vqpasswd where
  pwName := ['o']
  pwPasswd := []
  pwUid := 0
  pwGid := 0
  pwFlags := 0
  pwGecos := []
  pwDir := []
  pwShell := []
  pwClearPasswd := none

/-- Domains with one old account each, which stays when it is deleted. -/
def oldUsers (listed : List Char → Bool) : Backend Unit where
  vauthGetall := fun _ domain => if listed domain then [oldUser] else []
  vgetLastauth := fun _ _ _ => 1
  stat := fun _ _ => false
  vdeluser := fun _ world => world
  leaves := fun _ _ name => name

theorem vauthGetall_oldUsers (listed : List Char → Bool) (world : Unit) (domain : List Char) :
    (oldUsers listed).vauthGetall world domain = if listed domain then [oldUser] else [] :=
  rfl

theorem deletes_oldUsers (listed : List Char → Bool) : Deletes (oldUsers listed) Eq Eq () where
  refl := fun _ => rfl
  leaves := fun _ _ _ _ same => same
  names := by
    rintro domain _ rfl world mypw -
    exact ⟨rfl, rfl⟩
  shrinks := fun _ _ _ _ member => member
  logins := fun _ _ _ _ _ => .inr ⟨rfl, rfl⟩
  others := fun _ _ _ _ _ _ => ⟨rfl, rfl, id⟩

theorem fitsBuffer_oldUsers (opts : List Opt) (listed : List Char → Bool) (now : Int)
    (domains : List (List Char)) : FitsBuffer opts (oldUsers listed) now () domains := by
  intro _ _ domain _ mypw member _
  rw [vauthGetall_oldUsers] at member
  split at member
  · rw [List.mem_singleton.mp member]
    decide
  · exact absurd member List.not_mem_nil

/-- Every account is handed over, as far as its domain is visited. -/
theorem foldl_oldUsers (listed : List Char → Bool) {options : Options} {nowt : Int}
    (delete : options.delete = true) (late : 1 < nowt) (list : List (List Char))
    (run : Run Unit) :
    (list.foldl (fun run domain => deloldusers (oldUsers listed) options nowt domain run)
      run).handed = run.handed ++ (list.filter listed).map fun domain => (oldUser.pwName, domain) := by
  induction list generalizing run with
  | nil => exact (List.append_nil _).symm
  | cons domain list induction =>
      rw [List.foldl_cons, induction]
      cases inside : listed domain with
      | false =>
          have outside : ¬listed domain = true := Bool.eq_false_iff.mp inside
          rw [deloldusers, vauthGetall_oldUsers, if_neg outside, List.filter_cons_of_neg outside]
          rfl
      | true =>
          have visits : visit (oldUsers listed) options nowt (domain, run) oldUser =
              (domain, ⟨run.handed ++ [(oldUser.pwName, domain)], ()⟩) := by
            have other : oldUser.pwName ≠ "postmaster".toList := by decide
            have recorded : (1 : Int) ≠ 0 := by decide
            have absent : ¬(false && options.ignoreDotQmailUsers) = true := by
              rw [Bool.false_and]
              exact Bool.false_ne_true
            rw [visit, if_neg other]
            exact (if_pos recorded).trans
              ((if_pos late).trans ((if_neg absent).trans (if_pos delete)))
          rw [deloldusers, vauthGetall_oldUsers, if_pos inside, List.foldl_cons, List.foldl_nil,
            visits, List.filter_cons_of_pos inside, List.map_cons, List.append_assoc]
          rfl

theorem old_oldUser (listed : List Char → Bool) {now : Int} {domain : List Char} :
    Old opts (oldUsers listed) now () oldUser domain ↔ 1 < now - 86400 * ageInDays opts := by
  constructor
  · exact fun old => old.earlier
  · intro earlier
    have other : oldUser.pwName ≠ "postmaster".toList := by decide
    have recorded : (1 : Int) ≠ 0 := by decide
    exact ⟨⟨other, recorded, earlier⟩, fun _ => rfl⟩

/-- What a command line that is right does with the old accounts. -/
theorem Right.oldUsers (right : Right opts) (goes : .v ∉ given opts)
    (chooses : ¬(everyDomain opts = false ∧ lastDomain opts = [])) :
    (-2 ^ 31 ≤ 86400 * intAge opts ∧ 86400 * intAge opts < 2 ^ 31) ∧
      ∀ listed now process, .D ∈ given opts → 1 < now - 86400 * intAge opts →
        ∃ options : Options, options.domain = snprintf maxBuff (lastDomain opts) ∧
          options.everyDomain = everyDomain opts ∧
          DeletesOld opts (Vdeloldusers.oldUsers listed) Eq Eq now process ()
            (((visited options process).filter listed).map fun domain =>
              (oldUser.pwName, domain)) := by
  rcases getOptions_spec goes chooses with ⟨options, read, reads, domain, age, every⟩
  have runs := fun listed now process => right Unit (Vdeloldusers.oldUsers listed) Eq Eq now
    process ⟨none, []⟩ () (deletes_oldUsers listed) (fitsBuffer_oldUsers opts listed now _)
  constructor
  · rcases runs (fun _ => false) 0 (assignOnly []) with ⟨run, ran, _⟩
    rw [main_eq read, Option.map_eq_some_iff] at ran
    rcases ran with ⟨seconds, fits, _⟩
    rw [← age]
    rw [signed] at fits
    split at fits
    · assumption
    · cases fits
  · intro listed now process delete late
    refine ⟨options, domain, every, ?_⟩
    rcases runs listed now process with ⟨run, ran, deletes⟩
    rw [main_eq read, Option.map_eq_some_iff] at ran
    rcases ran with ⟨seconds, fits, rfl⟩
    have value : seconds = 86400 * intAge opts := by
      rw [signed] at fits
      split at fits
      · rw [← Option.some.inj fits, age]
      · cases fits
    rw [← value] at late
    rw [foldl_oldUsers listed (reads.delete.mpr (.inr delete)) late, List.nil_append] at deletes
    exact deletes

/-- A file with one domain. -/
def oneDomain (name : List Char) : AssignProcess :=
  assignOnly ('+' :: name ++ '-' :: ':' :: name ++ ":0:0:/:-::\n".toList)

theorem allDomains_oneDomain :
    ∀ name ∈ ["a.a".toList, "b.b".toList], allDomains (oneDomain name) = [name] := by
  decide +kernel

/-- The enumeration for another name is empty. -/
theorem getDomainEntries_other {name domain : List Char}
    (known : name ∈ ["a.a".toList, "b.b".toList])
    (other : (matchName domain (oneDomain name)).1 ∉ [[], name]) :
    (getDomainEntries domain (oneDomain name)).1 = [] := by
  have lines : ∀ name ∈ ["a.a".toList, "b.b".toList],
      (Stream.fgetsLoop maxBuff ((oneDomain name).installation.files.assign.getD [])).filterMap
        (fun line => (parseEntry (cstring line)).map (·.realDomain)) = [name] := by
    decide +kernel
  rw [getDomainEntries_eq, entriesLeft, List.filterMap_eq_nil_iff]
  intro line member
  cases scanned : scanLine (matchName domain (oneDomain name)).1 line with
  | none => rfl
  | some entry =>
      rcases scanLine_eq_some.mp scanned with ⟨read, matched⟩
      have real : entry.realDomain ∈ [name] := by
        rw [← lines name known]
        apply List.mem_filterMap.mpr
        use line, member
        rw [read]
        rfl
      rw [List.mem_singleton.mp real, matchesReal, Bool.or_eq_true, decide_eq_true_iff,
        decide_eq_true_iff] at matched
      rw [List.mem_cons, List.mem_singleton] at other
      exact absurd (matched.imp_right Eq.symm) other

/-- A name in front of `-e` leaves out a domain. -/
theorem exists_not_enumerated {domain : List Char} (nonempty : domain ≠ []) :
    ∃ name ∈ ["a.a".toList, "b.b".toList], (getDomainEntries domain (oneDomain name)).1 = [] := by
  have matchBuffer : ∀ name, (matchName domain (oneDomain name)).1 =
      lowerit (snprintf maxPwDomain domain) ∧ lowerit (snprintf maxPwDomain domain) ≠ [] := by
    intro name
    cases domain with
    | nil => exact absurd rfl nonempty
    | cons char rest => exact ⟨rfl, List.cons_ne_nil _ _⟩
  by_cases first : lowerit (snprintf maxPwDomain domain) = "a.a".toList
  · refine ⟨"b.b".toList, List.mem_cons_of_mem _ List.mem_cons_self, ?_⟩
    apply getDomainEntries_other (List.mem_cons_of_mem _ List.mem_cons_self)
    rw [(matchBuffer _).1, first]
    decide
  · refine ⟨"a.a".toList, List.mem_cons_self, ?_⟩
    apply getDomainEntries_other List.mem_cons_self
    rw [(matchBuffer _).1, List.mem_cons, List.mem_singleton]
    exact not_or.mpr ⟨(matchBuffer []).2, first⟩

/-- Nothing is missed of a selected domain. -/
theorem DeletesOld.visits {listed : List Char → Bool} {now : Int} {process : AssignProcess}
    {list : List (List Char)} (delete : .D ∈ given opts)
    (deletes : DeletesOld opts (oldUsers listed) Eq Eq now process ()
      ((list.filter listed).map fun domain => (oldUser.pwName, domain)))
    (late : 1 < now - 86400 * ageInDays opts) {domain : List Char}
    (member : domain ∈ selected opts process) (is : listed domain = true) : domain ∈ list := by
  have present : oldUser ∈ (oldUsers listed).vauthGetall () domain := by
    rw [vauthGetall_oldUsers, if_pos is]
    exact List.mem_cons_self
  rcases deletes.every delete domain member oldUser present ((old_oldUser listed).mpr late) with
    ⟨account, handed, same⟩
  rcases List.mem_map.mp handed with ⟨other, inside, equal⟩
  have name : other = domain := (Prod.ext_iff.mp (equal.trans same.symm)).2
  rw [← name]
  exact List.mem_of_mem_filter inside

/-- Nothing else is visited. -/
theorem DeletesOld.selects {now : Int} {process : AssignProcess} {list : List (List Char)}
    (deletes : DeletesOld opts (oldUsers fun _ => true) Eq Eq now process ()
      ((list.filter fun _ => true).map fun domain => (oldUser.pwName, domain)))
    {domain : List Char} (member : domain ∈ list) :
    domain ∈ selected opts process ∧ 1 < now - 86400 * ageInDays opts := by
  have handed : (oldUser.pwName, domain) ∈
      (list.filter fun _ => true).map fun domain => (oldUser.pwName, domain) :=
    List.mem_map_of_mem (List.mem_filter.mpr ⟨member, rfl⟩)
  rcases deletes.old _ handed with ⟨_, chosen, rfl, mypw, _, _, old⟩
  exact ⟨chosen, old.earlier⟩

theorem snprintf_maxBuff_ne_nil {text : List Char} (nonempty : text ≠ []) :
    snprintf maxBuff text ≠ [] := by
  cases text with
  | nil => exact absurd rfl nonempty
  | cons char rest => exact List.cons_ne_nil _ _

/-- What a command line that is right visits, at a time when the old accounts are old. -/
theorem Right.visits (right : Right opts) (goes : .v ∉ given opts)
    (chooses : ¬(everyDomain opts = false ∧ lastDomain opts = [])) (delete : .D ∈ given opts)
    (process : AssignProcess) :
    ∃ options : Options, options.domain = snprintf maxBuff (lastDomain opts) ∧
      options.everyDomain = everyDomain opts ∧
      ∀ domain, domain ∈ visited options process ↔ domain ∈ selected opts process := by
  rcases right.oldUsers goes chooses with ⟨⟨_, upper⟩, deletes⟩
  have late : 1 < 2 ^ 31 + 86400 * |ageInDays opts| + 2 - 86400 * intAge opts := by
    have nonneg := abs_nonneg (ageInDays opts)
    omega
  have early : 1 < 2 ^ 31 + 86400 * |ageInDays opts| + 2 - 86400 * ageInDays opts := by
    have above := le_abs_self (ageInDays opts)
    omega
  rcases deletes (fun _ => true) _ process delete late with ⟨options, domain, every, deletesOld⟩
  refine ⟨options, domain, every, ?_⟩
  intro name
  constructor
  · intro member
    exact (deletesOld.selects member).1
  · intro member
    exact deletesOld.visits delete early member rfl

/-- The domains of a command line that is right are chosen by `-d` or by `-e` alone. -/
theorem Right.chosen (right : Right opts) (goes : .v ∉ given opts)
    (chooses : ¬(everyDomain opts = false ∧ lastDomain opts = [])) (delete : .D ∈ given opts) :
    if everyDomain opts then lastOf opts selection = some none ∧ lastDomain opts = []
    else (lastDomain opts).length < maxBuff := by
  have visits := right.visits goes chooses delete
  cases all : everyDomain opts with
  | false =>
      rw [if_neg Bool.false_ne_true]
      have nonempty : lastDomain opts ≠ [] := fun none => chooses ⟨all, none⟩
      rcases visits (assignOnly []) with ⟨options, domain, every, same⟩
      rw [visited, every, all, domain, selected_of_not_everyDomain _ goes all nonempty] at same
      have whole := List.mem_singleton.mp ((same (lastDomain opts)).mpr List.mem_cons_self)
      have size := congrArg List.length whole
      rw [snprintf, List.length_take, maxBuff] at size
      rw [maxBuff]
      omega
  | true =>
      rw [if_pos rfl]
      by_cases noDomain : lastDomain opts = []
      · refine ⟨?_, noDomain⟩
        -- A domain is visited, and only `-e` selects one.
        rcases visits (oneDomain "a.a".toList) with ⟨options, domain, every, same⟩
        have enumerated : visited options (oneDomain "a.a".toList) = ["a.a".toList] := by
          rw [visited, every, all, domain, noDomain]
          exact allDomains_oneDomain _ List.mem_cons_self
        have inside := (same "a.a".toList).mp (enumerated ▸ List.mem_cons_self)
        rw [selected, if_neg goes] at inside
        rcases selection_cases opts with ⟨last, _⟩ | last
        · exact last
        · rw [last] at inside
          rw [lastDomain] at noDomain
          cases found : lastOf opts domainArg with
          | none =>
              rw [found] at inside
              exact absurd inside List.not_mem_nil
          | some name =>
              rw [found, Option.getD_some] at noDomain
              rw [found, Option.map_some] at inside
              simp only [if_pos noDomain] at inside
              exact absurd inside List.not_mem_nil
      · -- Of the domains that are enumerated for a name, one is missing.
        rcases selection_cases opts with ⟨last, _⟩ | last
        · rcases exists_not_enumerated (snprintf_maxBuff_ne_nil noDomain) with
            ⟨name, known, missing⟩
          rcases visits (oneDomain name) with ⟨options, domain, every, same⟩
          have member : name ∈ selected opts (oneDomain name) := by
            rw [selected, if_neg goes, last]
            simp only
            rw [allDomains_oneDomain name known]
            exact List.mem_cons_self
          have inside := (same name).mpr member
          rw [visited, every, all, if_pos rfl, domain, missing] at inside
          exact absurd inside List.not_mem_nil
        · rcases visits (assignOnly []) with ⟨options, domain, every, same⟩
          have member : lastDomain opts ∈ selected opts (assignOnly []) := by
            rw [selected, if_neg goes, last]
            rw [lastDomain] at noDomain ⊢
            cases found : lastOf opts domainArg with
            | none =>
                rw [found] at noDomain
                exact absurd rfl noDomain
            | some name =>
                rw [found, Option.getD_some] at noDomain
                rw [Option.map_some, Option.getD_some]
                simp only [if_neg noDomain]
                exact List.mem_cons_self
          have inside := (same _).mpr member
          rw [visited, every, all, if_pos rfl, getDomainEntries_eq] at inside
          exact absurd inside List.not_mem_nil

/-- A command line that is right is one of these. -/
theorem asMeant_of_right (right : Right opts) : AsMeant opts := by
  by_cases goes : .v ∈ given opts
  · exact .inl goes
  by_cases chooses : everyDomain opts = false ∧ lastDomain opts = []
  · exact .inr (.inl chooses)
  rcases right.oldUsers goes chooses with ⟨fits, deletes⟩
  refine .inr (.inr ⟨fits, ?_⟩)
  intro delete
  refine ⟨?_, right.chosen goes chooses delete⟩
  have chosen := right.chosen goes chooses delete
  by_contra long
  -- The accounts have just become old for a smaller age.
  have late : 1 < 86400 * ageInDays opts + 1 - 86400 * intAge opts := by omega
  rcases deletes (fun _ => true) _ (oneDomain "a.a".toList) delete late with
    ⟨options, domain, every, deletesOld⟩
  have some : ∃ name, name ∈ visited options (oneDomain "a.a".toList) := by
    rw [visited, every]
    cases all : everyDomain opts with
    | false => exact ⟨options.domain, List.mem_cons_self⟩
    | true =>
        rw [all, if_pos rfl] at chosen
        rw [if_pos rfl, domain, chosen.2]
        refine ⟨"a.a".toList, ?_⟩
        have only := allDomains_oneDomain "a.a".toList List.mem_cons_self
        change "a.a".toList ∈ allDomains (oneDomain "a.a".toList)
        rw [only]
        exact List.mem_cons_self
  rcases some with ⟨name, member⟩
  have earlier := (deletesOld.selects member).2
  omega

/-- Which command lines delete exactly the old users of the selected domains. -/
theorem commandLine_right_iff (opts : List Opt) (nonneg : 0 ≤ ageInDays opts) :
    Right opts ↔ AsMeant opts :=
  ⟨asMeant_of_right, right_of_asMeant nonneg⟩

theorem commandLine_right_iff_domain :
    Right [.d "a.b".toList, .a ['9', '0'], .D] ↔ AsMeant [.d "a.b".toList, .a ['9', '0'], .D] :=
  commandLine_right_iff _ (by decide)

/-- `-i` alone takes every domain along. -/
theorem not_commandLine_right : ¬∀ opts, 0 ≤ ageInDays opts → Right opts := by
  intro right
  rcases right [.i, .D] (by decide) Unit (oldUsers fun _ => true) Eq Eq 100000000
    (oneDomain "a.a".toList) ⟨none, []⟩ () (deletes_oldUsers _) (fitsBuffer_oldUsers _ _ _ _) with
    ⟨run, ran, deletes⟩
  have handed : (main (oldUsers fun _ => true) [.i, .D] 100000000 (oneDomain "a.a".toList)
      ⟨none, []⟩ ()).map (·.handed) = some [(['o'], "a.a".toList)] := by
    decide +kernel
  have none : selected [.i, .D] (oneDomain "a.a".toList) = [] := rfl
  rw [ran, Option.map_some, Option.some.injEq] at handed
  rw [handed] at deletes
  rcases deletes.old _ List.mem_cons_self with ⟨domain, inside, -⟩
  rw [none] at inside
  exact absurd inside List.not_mem_nil

end Options

end Vpopmail.Vdeloldusers

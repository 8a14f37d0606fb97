import Vpopmail.Vpopmaild.ValidatePath

/-! # Confinement of the file commands

A session without `SA_ADMIN` is meant to stay in its own directory. The prefix
test of `validate_path` also passes a sibling whose name begins with the same
characters, and everything if the directory is empty. Confinement is therefore a
condition on what the path spells: where it repeats the caller's directory, no
component may be left open there. What is spelled must also fit the buffers, which
are filled in front of the test.
-/

namespace Vpopmail.Vpopmaild

open Vpopmail Text Components Buffer

/-- The directory itself, or what lies below it. An empty directory holds nothing. -/
def Session.Owns (session : Session) (newpath : List Char) : Prop :=
  session.entitledDir ≠ [] ∧ Below session.entitledDir newpath

/-- There is no access outside a buffer, and `post` holds of the result unless the command
is refused. -/
def Yields {Value : Type} (answer : Checked (Except Refusal Value)) (post : Value → Prop) :
    Prop :=
  ∃ outcome, answer = .ok outcome ∧ ∀ value, outcome = .ok value → post value

/-- Where `spelled` repeats `root`, which is not empty, it goes on with whole components, none
of which leads up again. -/
def Neighbourless (root spelled : List Char) : Prop :=
  ∀ rest, spelled = root ++ rest →
    root ≠ [] ∧ (ClosedAt root ∨ Opens rest) ∧ dotdot ∉ components rest

/-- The stored directory and the rest of the path fit `newpath`, and name no neighbour. -/
def Spells (session : Session) (directory rest : List Char) : Prop :=
  (snprintfPath directory).length + rest.length < maxpath ∧
    Neighbourless session.entitledDir (snprintfPath directory ++ rest)

/-- The paths that pass the screens for `..` and `%`. -/
def Screened (path : List Char) : Prop := ¬dotdot <:+: path ∧ '%' ∉ path

/-- The test of an expanded email address: domain administrators are held to
domain names that begin with theirs, users to their own account. -/
def EmailAllowed (session : Session) (theuser thedomain : List Char) : Prop :=
  if Has session.authVpw.pwGid qaAdmin then session.theDomain <+: thedomain
  else session.theUser = theuser ∧ session.theDomain = thedomain

/-- The paths that begin with an email address. -/
structure OfEmail (path : List Char) : Prop where
  screened : Screened path
  relative : path.head? ≠ some '/'
  slash : '/' ∈ path
  atsign : '@' ∈ path
  before : path.idxOf '@' ≤ path.idxOf '/'

/-- The paths that begin with the name of a domain. -/
structure OfDomain (path : List Char) : Prop where
  screened : Screened path
  relative : path.head? ≠ some '/'
  slash : '/' ∈ path
  plain : '@' ∉ path

/-- The name in front of a path, if there is one, fits its array, and no form of the path names
a neighbour of the caller's directory: not the absolute path itself, nor the home directory of
the addressed user or the directory of the named domain, followed by the rest of the path. -/
structure NoNeighbour (backend : Backend) (session : Session) (path : List Char) : Prop where
  absolute : Screened path → path.head? = some '/' →
    Neighbourless session.entitledDir (snprintfPath path)
  fits : OfEmail path ∨ OfDomain path → path.idxOf '/' < maxpath
  email : OfEmail path → ∀ theuser thedomain myvpw realDomain,
    parseEmail backend.defaultDomain maxpath (path.takeWhile (· ≠ '/')) =
      some (theuser, thedomain) →
    backend.vauthGetpw theuser thedomain = some (myvpw, realDomain) →
    EmailAllowed session theuser realDomain →
    Spells session myvpw.pwDir (afterName path)
  domain : OfDomain path → ∀ thedir,
    backend.vgetAssign (path.takeWhile (· ≠ '/')) = some thedir →
    Spells session thedir (afterName path)

/-! ## Results without a fault -/

section Yields

variable {Value : Type} {post : Value → Prop}

theorem yields_ok {value : Value} : Yields (.ok (.ok value)) post ↔ post value := by
  constructor
  · rintro ⟨outcome, same, holds⟩
    cases same
    exact holds value rfl
  · intro holds
    refine ⟨.ok value, rfl, ?_⟩
    rintro _ ⟨⟩
    exact holds

theorem yields_refused (refusal : Refusal) : Yields (.ok (.error refusal)) post := by
  refine ⟨.error refusal, rfl, ?_⟩
  rintro _ ⟨⟩

theorem not_yields_fault (fault : Fault) : ¬Yields (.error fault) post := by
  rintro ⟨_, ⟨⟩, _⟩

theorem Yields.weaken {answer : Checked (Except Refusal Value)} {other : Value → Prop}
    (yields : Yields answer post) (implies : ∀ value, post value → other value) :
    Yields answer other := by
  rcases yields with ⟨outcome, same, holds⟩
  exact ⟨outcome, same, fun value equal => implies value (holds value equal)⟩

end Yields

/-! ## What the branches yield -/

section Branches

variable {backend : Backend} {session : Session} {path : List Char}

theorem yields_spellStored (directory rest : List Char) :
    Yields ((spellStored directory rest).map .ok) (Neighbourless session.entitledDir) ↔
      Spells session directory rest := by
  unfold spellStored strncatPath Spells
  by_cases fits : (snprintfPath directory).length + rest.length < maxpath
  · simp only [fits, if_true, true_and]
    exact yields_ok
  · simp only [fits, if_false, false_and, iff_false]
    exact not_yields_fault _

/-- A name that does not fit its array is written past its end. -/
theorem yields_leadingName {Value : Type} {post : Value → Prop}
    (rest : List Char → Checked (Except Refusal Value)) :
    Yields ((leadingName path).bind rest) post ↔
      path.idxOf '/' < maxpath ∧ Yields (rest (path.takeWhile (· ≠ '/'))) post := by
  unfold leadingName
  by_cases fits : path.idxOf '/' < maxpath
  · simp only [fits, if_true, true_and]
    exact Iff.rfl
  · simp only [fits, if_false, false_and, iff_false]
    exact not_yields_fault _

theorem yields_expandEmail (ordinary : ¬Has session.authVpw.pwGid saAdmin) :
    Yields (expandEmail backend session path) (Neighbourless session.entitledDir) ↔
      path.idxOf '/' < maxpath ∧ ∀ theuser thedomain myvpw realDomain,
        parseEmail backend.defaultDomain maxpath (path.takeWhile (· ≠ '/')) =
          some (theuser, thedomain) →
        backend.vauthGetpw theuser thedomain = some (myvpw, realDomain) →
        EmailAllowed session theuser realDomain →
        Spells session myvpw.pwDir (afterName path) := by
  unfold expandEmail
  rw [yields_leadingName]
  apply and_congr_right
  intro _
  cases parsed : parseEmail backend.defaultDomain maxpath (path.takeWhile (· ≠ '/')) with
  | none => simp [yields_refused]
  | some names =>
      rcases names with ⟨theuser, thedomain⟩
      have ofNames : (∀ user domain myvpw realDomain,
            some (theuser, thedomain) = some (user, domain) →
            backend.vauthGetpw user domain = some (myvpw, realDomain) →
            EmailAllowed session user realDomain →
            Spells session myvpw.pwDir (afterName path)) ↔
          ∀ myvpw realDomain, backend.vauthGetpw theuser thedomain = some (myvpw, realDomain) →
            EmailAllowed session theuser realDomain →
            Spells session myvpw.pwDir (afterName path) := by
        constructor
        · exact fun all myvpw realDomain => all theuser thedomain myvpw realDomain rfl
        · rintro all user domain myvpw realDomain ⟨⟩
          exact all myvpw realDomain
      rw [ofNames]
      cases found : backend.vauthGetpw theuser thedomain with
      | none => simp [found, yields_refused]
      | some answer =>
          rcases answer with ⟨myvpw, realDomain⟩
          have ofAnswer : (∀ vpw real, some (myvpw, realDomain) = some (vpw, real) →
                EmailAllowed session theuser real →
                Spells session vpw.pwDir (afterName path)) ↔
              (EmailAllowed session theuser realDomain →
                Spells session myvpw.pwDir (afterName path)) := by
            constructor
            · exact fun all => all myvpw realDomain rfl
            · rintro spells vpw real ⟨⟩
              exact spells
          rw [ofAnswer]
          simp only [found]
          unfold EmailAllowed
          by_cases admin : Has session.authVpw.pwGid qaAdmin
          · by_cases allowed : session.theDomain <+: realDomain
            · simp [admin, allowed, yields_spellStored]
            · simp [admin, allowed, yields_refused]
          · by_cases allowed : session.theUser = theuser ∧ session.theDomain = realDomain
            · simp [admin, ordinary, allowed, yields_spellStored]
            · have refused := Decidable.not_and_iff_or_not.mp allowed
              simp only [admin, ordinary, allowed, if_false, not_false_eq_true, true_and,
                ne_eq, refused, if_true, false_imp_iff, iff_true]
              exact yields_refused _

theorem yields_expandDomain :
    Yields (expandDomain backend path) (Neighbourless session.entitledDir) ↔
      path.idxOf '/' < maxpath ∧ ∀ thedir,
        backend.vgetAssign (path.takeWhile (· ≠ '/')) = some thedir →
          Spells session thedir (afterName path) := by
  unfold expandDomain
  rw [yields_leadingName]
  apply and_congr_right
  intro _
  cases found : backend.vgetAssign (path.takeWhile (· ≠ '/')) with
  | none => simp [yields_refused]
  | some thedir => simp [yields_spellStored]

/-- The expansion of a screened path. -/
theorem yields_expandPath (ordinary : ¬Has session.authVpw.pwGid saAdmin)
    (screened : Screened path) :
    Yields (expandPath backend session path) (Neighbourless session.entitledDir) ↔
      NoNeighbour backend session path := by
  unfold expandPath
  by_cases absolute : path.head? = some '/'
  · rw [if_pos absolute, yields_ok]
    constructor
    · intro neighbourless
      constructor
      · exact fun _ _ => neighbourless
      · rintro (named | named)
        · exact absurd absolute named.relative
        · exact absurd absolute named.relative
      · exact fun named => absurd absolute named.relative
      · exact fun named => absurd absolute named.relative
    · exact fun noNeighbour => noNeighbour.absolute screened absolute
  · rw [if_neg absolute]
    by_cases slash : '/' ∈ path
    · rw [if_neg (not_not_intro slash)]
      by_cases atsign : '@' ∈ path
      · rw [if_pos atsign]
        by_cases behind : path.idxOf '/' < path.idxOf '@'
        · rw [if_pos behind]
          refine iff_of_true (yields_refused _) ?_
          constructor
          · exact fun _ first => absurd first absolute
          · rintro (named | named)
            · exact absurd behind (Nat.not_lt.mpr named.before)
            · exact absurd atsign named.plain
          · exact fun named => absurd behind (Nat.not_lt.mpr named.before)
          · exact fun named => absurd atsign named.plain
        · rw [if_neg behind, yields_expandEmail ordinary]
          have named : OfEmail path :=
            ⟨screened, absolute, slash, atsign, Nat.le_of_not_lt behind⟩
          constructor
          · rintro ⟨fits, spells⟩
            constructor
            · exact fun _ first => absurd first absolute
            · exact fun _ => fits
            · exact fun _ => spells
            · exact fun other => absurd atsign other.plain
          · intro noNeighbour
            exact ⟨noNeighbour.fits (.inl named), noNeighbour.email named⟩
      · rw [if_neg atsign, yields_expandDomain]
        have named : OfDomain path := ⟨screened, absolute, slash, atsign⟩
        constructor
        · rintro ⟨fits, spells⟩
          constructor
          · exact fun _ first => absurd first absolute
          · exact fun _ => fits
          · exact fun other => absurd other.atsign atsign
          · exact fun _ => spells
        · intro noNeighbour
          exact ⟨noNeighbour.fits (.inr named), noNeighbour.domain named⟩
    · rw [if_pos slash]
      refine iff_of_true (yields_refused _) ?_
      constructor
      · exact fun _ first => absurd first absolute
      · rintro (named | named)
        · exact absurd named.slash slash
        · exact absurd named.slash slash
      · exact fun named => absurd named.slash slash
      · exact fun named => absurd named.slash slash

theorem within_eq_ok_iff (directory spelled : List Char) {newpath : List Char}
    (refusal : Refusal) :
    (if directory <+: spelled then Except.ok spelled else .error refusal) = .ok newpath ↔
      spelled = newpath ∧ directory <+: newpath := by
  by_cases inside : directory <+: spelled
  · rw [if_pos inside, Except.ok.injEq]
    exact ⟨fun equal => ⟨equal, equal ▸ inside⟩, And.left⟩
  · rw [if_neg inside]
    constructor
    · intro impossible
      cases impossible
    · intro holds
      exact absurd (holds.1 ▸ holds.2) inside

theorem checkPrefix_eq_ok_iff (ordinary : ¬Has session.authVpw.pwGid saAdmin)
    {spelled newpath : List Char} :
    checkPrefix session spelled = .ok newpath ↔
      spelled = newpath ∧ session.entitledDir <+: newpath := by
  unfold checkPrefix Session.entitledDir
  simp only [ordinary, if_false]
  split
  · exact within_eq_ok_iff session.theDomainDir spelled _
  · exact within_eq_ok_iff session.theUserDir spelled _

/-- What passes the prefix test belongs to the caller exactly when it is spelled without naming
a neighbour. -/
theorem owns_iff_neighbourless (spelled : List Char) :
    (session.entitledDir <+: spelled → session.Owns spelled) ↔
      Neighbourless session.entitledDir spelled := by
  constructor
  · rintro owns rest rfl
    have own := owns (List.prefix_append _ rest)
    exact ⟨own.1, (below_append_iff _ rest).mp own.2⟩
  · rintro neighbourless ⟨rest, rfl⟩
    have alone := neighbourless rest rfl
    exact ⟨alone.1, (below_append_iff _ rest).mpr alone.2⟩

theorem yields_validatePath (ordinary : ¬Has session.authVpw.pwGid saAdmin) :
    Yields (validatePath backend session path) session.Owns ↔
      (Screened path →
        Yields (expandPath backend session path) (Neighbourless session.entitledDir)) := by
  unfold validatePath Screened
  by_cases dots : dotdot <:+: path
  · simp [dots, yields_refused]
  · by_cases percent : '%' ∈ path
    · simp [dots, percent, yields_refused]
    · simp only [dots, percent, if_false, not_false_eq_true, and_self, true_implies]
      rcases expandPath backend session path with fault | refusal | spelled
      · exact iff_of_false (not_yields_fault fault) (not_yields_fault fault)
      · exact iff_of_true (yields_refused refusal) (yields_refused refusal)
      · rw [yields_ok, ← owns_iff_neighbourless]
        constructor
        · rintro ⟨outcome, ⟨⟩, owns⟩ inside
          exact owns spelled ((checkPrefix_eq_ok_iff ordinary).mpr ⟨rfl, inside⟩)
        · intro owns
          refine ⟨checkPrefix session spelled, rfl, ?_⟩
          intro newpath passed
          rcases (checkPrefix_eq_ok_iff ordinary).mp passed with ⟨rfl, inside⟩
          exact owns inside

theorem yields_validatePath_iff (ordinary : ¬Has session.authVpw.pwGid saAdmin) :
    Yields (validatePath backend session path) session.Owns ↔
      NoNeighbour backend session path := by
  rw [yields_validatePath ordinary]
  by_cases screened : Screened path
  · rw [← yields_expandPath ordinary screened]
    exact ⟨fun all => all screened, fun yields _ => yields⟩
  · refine iff_of_true (fun passes => absurd passes screened) ?_
    constructor
    · exact fun passes => absurd passes screened
    · rintro (named | named)
      · exact absurd named.screened screened
      · exact absurd named.screened screened
    · exact fun named => absurd named.screened screened
    · exact fun named => absurd named.screened screened

end Branches

/-! ## Commands -/

/-- A path argument is the validated path. -/
theorem yields_pathArgument {backend : Backend} {session : Session} {argument : List Char}
    {post : List Char → Prop} (yields : Yields (validatePath backend session argument) post) :
    Yields (pathArgument backend session argument) post := by
  rcases yields with ⟨refusal | name, same, holds⟩
  · rw [pathArgument, same]
    exact yields_refused _
  · rw [pathArgument, same]
    exact yields_ok.mpr (holds name rfl)

/-- Every path a command touches is one of its validated arguments. -/
theorem FileCommand.yields_touches {command : FileCommand} {backend : Backend}
    {session : Session} {arguments : List (List Char)} {post : List Char → Prop}
    (yields : ∀ argument ∈ arguments, Yields (validatePath backend session argument) post) :
    Yields (command.touches backend session arguments) fun touched =>
      ∀ name ∈ touched, post name := by
  cases arguments with
  | nil => exact yields_refused _
  | cons argument others =>
      have first := yields_pathArgument (yields argument List.mem_cons_self)
      simp only [touches]
      split
      · cases others with
        | nil => exact yields_refused _
        | cons dest others =>
            have second := yields_pathArgument
              (yields dest (List.mem_cons_of_mem _ List.mem_cons_self))
            rcases first with ⟨refusal | sourcename, source, holds⟩
            · simp only [source]
              exact yields_refused refusal
            · rcases second with ⟨refusal | destname, target, destHolds⟩
              · simp only [source, target]
                exact yields_refused refusal
              · simp only [source, target]
                refine yields_ok.mpr ?_
                intro name member
                rcases List.mem_pair.mp member with rfl | rfl
                · exact holds _ rfl
                · exact destHolds _ rfl
      · rcases first with ⟨refusal | name, path, holds⟩
        · rw [path]
          exact yields_refused refusal
        · rw [path]
          refine yields_ok.mpr ?_
          intro other member
          rw [List.mem_singleton.mp member]
          exact holds name rfl

/-- A caller without `SA_ADMIN` is confined by `validate_path` exactly on the paths that name no
neighbour and fit the buffers, and commands on such paths touch nothing else. -/
theorem validatePath_confined_iff (backend : Backend) (session : Session)
    (ordinary : ¬Has session.authVpw.pwGid saAdmin) (path : List Char) :
    (Yields (validatePath backend session path) session.Owns ↔
        NoNeighbour backend session path) ∧
      ∀ (command : FileCommand) (arguments : List (List Char)),
        (∀ argument ∈ arguments, NoNeighbour backend session argument) →
        Yields (command.touches backend session arguments) fun touched =>
          ∀ name ∈ touched, session.Owns name := by
  constructor
  · exact yields_validatePath_iff ordinary
  · intro command arguments noNeighbours
    apply FileCommand.yields_touches
    intro argument member
    exact (yields_validatePath_iff ordinary).mpr (noNeighbours argument member)

/-! ## Neighbours -/

/-- Two users of one domain, one of them its postmaster, beside a domain whose
name begins like theirs. -/
def neighbours : Backend where
  vauthGetpw user domain :=
    if domain = "example.com".toList ∧
        (user = "bob".toList ∨ user = "postmaster".toList) then
      some (⟨user, "x".toList, 0, 0, 0, user, "/domains/example.com/".toList ++ user,
        "NOQUOTA".toList, some []⟩, domain)
    else none
  vauthCrypt _ _ pass _ := pass = "secret".toList
  vgetAssign domain :=
    if domain = "example.com".toList ∨ domain = "example.com.au".toList then
      some ("/domains/".toList ++ domain)
    else none
  defaultDomain := "example.com".toList

def bob : Session where
  authVpw := ⟨"bob".toList, "x".toList, 0, 0, 0, "bob".toList,
    "/domains/example.com/bob".toList, "NOQUOTA".toList, some []⟩
  theUser := "bob".toList
  theDomain := "example.com".toList
  theUserDir := "/domains/example.com/bob".toList
  theDomainDir := "/domains/example.com".toList
  theVpopmailDomains := "/domains".toList

def postmaster : Session where
  authVpw := ⟨"postmaster".toList, "x".toList, 0, qaAdmin, 0, "postmaster".toList,
    "/domains/example.com/postmaster".toList, "NOQUOTA".toList, some []⟩
  theUser := "postmaster".toList
  theDomain := "example.com".toList
  theUserDir := "/domains/example.com/postmaster".toList
  theDomainDir := "/domains/example.com".toList
  theVpopmailDomains := "/domains".toList

/-- `bob` reaches the directory below his home by his address. -/
theorem validatePath_confined_bob :
    NoNeighbour neighbours bob "bob@example.com/Maildir".toList ∧
      Yields (FileCommand.writeFile.touches neighbours bob ["bob@example.com/Maildir".toList])
        fun touched => ∀ name ∈ touched, bob.Owns name := by
  have both := validatePath_confined_iff neighbours bob (by decide)
    "bob@example.com/Maildir".toList
  have owns : bob.Owns "/domains/example.com/bob/Maildir".toList :=
    ⟨by decide, (below_append_iff bob.entitledDir "/Maildir".toList).mpr (by decide)⟩
  have noNeighbour := both.1.mp ⟨.ok "/domains/example.com/bob/Maildir".toList, rfl, by
    rintro _ ⟨⟩
    exact owns⟩
  refine ⟨noNeighbour, both.2 .writeFile _ ?_⟩
  intro argument member
  rw [List.mem_singleton.mp member]
  exact noNeighbour

/-- `bob` may write into the directory of `bobby`, and the postmaster of
`example.com` into that of `example.com.au`. -/
theorem validatePath_admits_neighbours :
    (login neighbours "/domains".toList "bob@example.com".toList "secret".toList = .ok bob ∧
      FileCommand.writeFile.touches neighbours bob
          ["/domains/example.com/bobby/.qmail".toList] =
        .ok (.ok ["/domains/example.com/bobby/.qmail".toList]) ∧
      ¬bob.Owns "/domains/example.com/bobby/.qmail".toList) ∧
    (login neighbours "/domains".toList "postmaster@example.com".toList "secret".toList =
        .ok postmaster ∧
      FileCommand.rmDir.touches neighbours postmaster ["example.com.au/".toList] =
        .ok (.ok ["/domains/example.com.au/".toList]) ∧
      ¬postmaster.Owns "/domains/example.com.au/".toList) := by
  refine ⟨⟨rfl, rfl, ?_⟩, ⟨rfl, rfl, ?_⟩⟩
  · have sibling := below_append_iff bob.entitledDir "by/.qmail".toList
    exact fun own => absurd (sibling.mp own.2).1 (by decide)
  · have sibling := below_append_iff postmaster.entitledDir ".au/".toList
    exact fun own => absurd (sibling.mp own.2).1 (by decide)

end Vpopmail.Vpopmaild

import Vpopmail.AliasFiles
import Vpopmail.Foundation.Buffer

/-! # The aliases of a recipient

`process_valias` delivers to the lines of the recipient's own alias. Without any, it looks for
an alias `front-default`, where `front-` is as much of the recipient's name as possible.
-/

namespace Vpopmail.Vdelivermail

open Vpopmail Text Buffer Vpopmail.Stream

/-! ## Sources of aliases -/

/-- The lines that the calls of `valias_select_next` go on to return. -/
inductive Enumerates {State : Type} (next : State → Option (List Char) × State) :
    Option (List Char) × State → List (List Char) → Prop
  | ended {state : State} : Enumerates next (none, state) []
  | line {line : List Char} {state : State} {lines : List (List Char)} :
      Enumerates next (next state) lines → Enumerates next (some line, state) (line :: lines)

/-- A source keeps its lines when its state is a part of another one. -/
theorem Enumerates.lift {State Other : Type} {next : State → Option (List Char) × State}
    (other : Other) {selected : Option (List Char) × State} {lines : List (List Char)}
    (enumerates : Enumerates next selected lines) :
    Enumerates (fun state : Other × State => ((next state.2).1, state.1, (next state.2).2))
      (selected.1, other, selected.2) lines := by
  induction enumerates with
  | ended => exact .ended
  | line _ induction => exact .line induction

/-- The functions that `valias_select` and `valias_select_next` point to, for the domain of the
recipient, and the aliases that they read. -/
structure AliasSource where
  State : Type
  select : List Char → State → Option (List Char) × State
  next : State → Option (List Char) × State
  lines : List Char → List (List Char)
  serves : ∀ name state, Enumerates next (select name state) (lines name)
  rounds : State → Nat
  enough : ∀ name state, (lines name).length ≤ rounds (select name state).2 + 1

/-! ## The search -/

def authSize : Nat := 300

def tmpuserSize : Nat := 350

def defSize : Nat := 150

def defaultVariable : List Char := ['D', 'E', 'F', 'A', 'U', 'L', 'T', '=']

def defaultAlias (front : List Char) : List Char := front ++ defaultSuffix

/-- What `deliver_mail` is called with, and `DEFAULT` in the environment meanwhile. -/
structure AliasDelivery where
  default : Option (List Char)
  line : List Char
  deriving DecidableEq

section Process

variable (source : AliasSource) (theUser : List Char) (default : Option (List Char))

/-- The loop over the positions behind a dash, from the end of the name. -/
def wildcard : (i : Nat) → source.State →
    Checked (Option (List Char) × Option (List Char) × source.State)
  | 0, state => .ok (default, none, state)
  | i + 1, state =>
      if theUser[i]? = some '-' then
        let tmpuser := defaultAlias (theUser.take i)
        if tmpuserSize ≤ tmpuser.length then .error .outOfBounds
        else
          match source.select tmpuser state with
          | (none, state) => wildcard i state
          | (some line, state) =>
              let rest := theUser.drop (i + 1)
              if defSize ≤ (defaultVariable ++ rest).length then .error .outOfBounds
              else .ok (some rest, some line, state)
      else wildcard i state

/-- The first line of the recipient's alias, or of a wildcard, with the value of `DEFAULT`. -/
def selectAlias (state : source.State) :
    Checked (Option (List Char) × Option (List Char) × source.State) :=
  match source.select theUser state with
  | (some line, state) => .ok (default, some line, state)
  | (none, state) => wildcard source theUser default theUser.length state

/-- The loop over the lines. -/
def deliverLines (value : Option (List Char)) :
    (rounds : Nat) → Option (List Char) × source.State → List AliasDelivery
  | 0, _ => []
  | _ + 1, (none, _) => []
  | rounds + 1, (some line, state) =>
      ⟨value, line⟩ :: deliverLines value rounds (source.next state)

/-- The deliveries, and whether there are any. -/
def deliverAliases (value : Option (List Char)) (selected : Option (List Char) × source.State) :
    List AliasDelivery × Int :=
  (deliverLines source value (source.rounds selected.2 + 1) selected,
    if selected.1.isSome then 1 else 0)

/-- `process_valias` without `QMAIL_EXT`, for deliveries that return. -/
def processValias (state : source.State) : Checked (List AliasDelivery × Int) :=
  (selectAlias source theUser default state).map fun selected =>
    deliverAliases source selected.1 selected.2

/-! ## The alias of a recipient -/

/-- The lines that a name stands for, and what is left of the name behind a wildcard. -/
inductive Resolves (lines : List Char → List (List Char)) (name : List Char) :
    Option (List Char) → List (List Char) → Prop
  | own : lines name ≠ [] → Resolves lines name none (lines name)
  | wildcard {front rest : List Char} : lines name = [] → name = front ++ '-' :: rest →
      lines (defaultAlias front) ≠ [] →
      (∀ longer behind, name = longer ++ '-' :: behind → front.length < longer.length →
        lines (defaultAlias longer) = []) →
      Resolves lines name (some rest) (lines (defaultAlias front))
  | unknown : lines name = [] →
      (∀ front rest, name = front ++ '-' :: rest → lines (defaultAlias front) = []) →
      Resolves lines name none []

/-- The message is delivered to the lines of the alias, with the rest of the name in `DEFAULT`,
within the buffers. -/
def DeliversRightly (state : source.State) : Prop :=
  ∃ rest lines, Resolves source.lines theUser rest lines ∧
    processValias source theUser default state =
      .ok (lines.map (AliasDelivery.mk (rest.or default)), if lines = [] then 0 else 1)

variable {source theUser default}

theorem deliverLines_eq {value : Option (List Char)} {selected : Option (List Char) × source.State}
    {lines : List (List Char)} (enumerates : Enumerates source.next selected lines) {rounds : Nat}
    (enough : lines.length ≤ rounds) :
    deliverLines source value rounds selected = lines.map (AliasDelivery.mk value) := by
  induction enumerates generalizing rounds with
  | ended => cases rounds <;> rfl
  | line _ induction =>
      cases rounds with
      | zero => cases enough
      | succ rounds =>
          rw [deliverLines, induction (Nat.le_of_succ_le_succ enough), List.map_cons]

theorem isSome_of_enumerates {selected : Option (List Char) × source.State}
    {lines : List (List Char)} (enumerates : Enumerates source.next selected lines) :
    selected.1.isSome = true ↔ lines ≠ [] := by
  cases enumerates <;> simp

theorem select_none {name : List Char} (empty : source.lines name = []) (state : source.State) :
    ∃ after, source.select name state = (none, after) := by
  have enumerates := source.serves name state
  rw [empty] at enumerates
  generalize source.select name state = selected at enumerates
  cases enumerates with
  | ended => exact ⟨_, rfl⟩

theorem select_some {name : List Char} (given : source.lines name ≠ []) (state : source.State) :
    ∃ line after, source.select name state = (some line, after) := by
  have enumerates := source.serves name state
  generalize source.select name state = selected at enumerates
  generalize source.lines name = lines at enumerates given
  cases enumerates with
  | ended => exact absurd rfl given
  | line _ => exact ⟨_, _, rfl⟩

theorem dash_iff {i : Nat} :
    theUser[i]? = some '-' ↔
      ∃ front rest, theUser = front ++ '-' :: rest ∧ front.length = i := by
  constructor
  · intro here
    rcases List.getElem?_eq_some_iff.mp here with ⟨inside, dash⟩
    refine ⟨theUser.take i, theUser.drop (i + 1), ?_, List.length_take_of_le inside.le⟩
    rw [← dash, ← List.drop_eq_getElem_cons, List.take_append_drop]
  · intro split
    rcases split with ⟨front, rest, rfl, rfl⟩
    rw [List.getElem?_append_right (Nat.le_refl _), Nat.sub_self]
    rfl

variable (default) in
/-- The search goes on past aliases without lines. -/
theorem wildcard_skip (fits : theUser.length < authSize) {i stop : Nat}
    (inside : i ≤ theUser.length)
    (before : stop ≤ i) (state : source.State)
    (none : ∀ front rest, theUser = front ++ '-' :: rest → stop ≤ front.length →
      source.lines (defaultAlias front) = []) :
    ∃ after, wildcard source theUser default i state =
      wildcard source theUser default stop after := by
  induction i generalizing state with
  | zero =>
      rw [Nat.le_zero.mp before]
      exact ⟨state, rfl⟩
  | succ i induction =>
      rcases Nat.lt_or_ge i stop with done | more
      · rw [show stop = i + 1 by omega]
        exact ⟨state, rfl⟩
      · rw [wildcard]
        split
        · rename_i dash
          rcases dash_iff.mp dash with ⟨front, rest, whole, length⟩
          have taken : theUser.take i = front := by rw [whole, List.take_left' length]
          have room : ¬ tmpuserSize ≤ (defaultAlias front).length := by
            have size : tmpuserSize = 350 := rfl
            have limit : authSize = 300 := rfl
            have suffix : defaultSuffix.length = 8 := rfl
            rw [defaultAlias, List.length_append]
            omega
          rcases select_none (none front rest whole (by omega)) state with ⟨after, selected⟩
          simp only [taken]
          rw [if_neg room, selected]
          exact induction (by omega) more after
        · exact induction (by omega) more state

/-- The search stops at an alias with lines. -/
theorem wildcard_hit (fits : theUser.length < authSize) {front rest : List Char}
    (whole : theUser = front ++ '-' :: rest) (given : source.lines (defaultAlias front) ≠ [])
    (state : source.State) :
    wildcard source theUser default (front.length + 1) state =
      if defSize ≤ defaultVariable.length + rest.length then .error .outOfBounds
      else .ok (some rest, source.select (defaultAlias front) state) := by
  have dash : theUser[front.length]? = some '-' := dash_iff.mpr ⟨front, rest, whole, rfl⟩
  have taken : theUser.take front.length = front := by rw [whole, List.take_left]
  have behind : theUser.drop (front.length + 1) = rest := by
    rw [whole, ← List.drop_drop, List.drop_left]
    rfl
  have room : ¬ tmpuserSize ≤ (defaultAlias front).length := by
    have size : tmpuserSize = 350 := rfl
    have limit : authSize = 300 := rfl
    have suffix : defaultSuffix.length = 8 := rfl
    have length := congrArg List.length whole
    rw [List.length_append, List.length_cons] at length
    rw [defaultAlias, List.length_append]
    omega
  rcases select_some given state with ⟨line, after, selected⟩
  rw [wildcard, if_pos dash]
  simp only [taken, behind]
  rw [if_neg room, selected]
  simp only [List.length_append]

theorem exists_resolves (lines : List Char → List (List Char)) (name : List Char) :
    ∃ rest found, Resolves lines name rest found := by
  by_cases own : lines name = []
  · have search : ∀ bound, (∃ front rest, name = front ++ '-' :: rest ∧ front.length < bound ∧
        lines (defaultAlias front) ≠ [] ∧ ∀ longer behind, name = longer ++ '-' :: behind →
          front.length < longer.length → longer.length < bound →
            lines (defaultAlias longer) = []) ∨
        ∀ front rest, name = front ++ '-' :: rest → front.length < bound →
          lines (defaultAlias front) = [] := by
      intro bound
      induction bound with
      | zero => exact .inr fun _ _ _ impossible => absurd impossible (Nat.not_lt_zero _)
      | succ bound induction =>
          by_cases hit : ∃ front rest, name = front ++ '-' :: rest ∧ front.length = bound ∧
              lines (defaultAlias front) ≠ []
          · rcases hit with ⟨front, rest, whole, length, given⟩
            refine .inl ⟨front, rest, whole, by omega, given, ?_⟩
            intro longer behind _ above below
            omega
          · have here : ∀ front rest, name = front ++ '-' :: rest → front.length = bound →
                lines (defaultAlias front) = [] := by
              intro front rest whole length
              by_contra given
              exact hit ⟨front, rest, whole, length, given⟩
            rcases induction with ⟨front, rest, whole, below, given, longest⟩ | none
            · refine .inl ⟨front, rest, whole, by omega, given, ?_⟩
              intro longer behind equal above below
              rcases Nat.lt_succ_iff_lt_or_eq.mp below with less | same
              · exact longest longer behind equal above less
              · exact here longer behind equal same
            · right
              intro front rest whole below
              rcases Nat.lt_succ_iff_lt_or_eq.mp below with less | same
              · exact none front rest whole less
              · exact here front rest whole same
    have bounded : ∀ front rest, name = front ++ '-' :: rest → front.length < name.length := by
      intro front rest whole
      rw [whole, List.length_append, List.length_cons]
      omega
    rcases search name.length with ⟨front, rest, whole, -, given, longest⟩ | none
    · refine ⟨_, _, .wildcard own whole given ?_⟩
      intro longer behind equal above
      exact longest longer behind equal above (bounded longer behind equal)
    · refine ⟨_, _, .unknown own ?_⟩
      intro front rest whole
      exact none front rest whole (bounded front rest whole)
  · exact ⟨_, _, .own own⟩

theorem deliverAliases_select {lines : List (List Char)} {name : List Char}
    (same : source.lines name = lines) (value : Option (List Char)) (state : source.State) :
    deliverAliases source value (source.select name state) =
      (lines.map (AliasDelivery.mk value), if lines = [] then 0 else 1) := by
  have enumerates := source.serves name state
  have enough := source.enough name state
  rw [same] at enumerates enough
  have given := isSome_of_enumerates enumerates
  rw [deliverAliases, deliverLines_eq enumerates enough]
  by_cases empty : lines = []
  · rw [if_pos empty, if_neg (fun some_ => given.mp some_ empty)]
  · rw [if_neg empty, if_pos (given.mpr empty)]

/-- What becomes of a recipient whose alias is known. -/
theorem processValias_of_resolves (fits : theUser.length < authSize) (state : source.State)
    {rest : Option (List Char)} {lines : List (List Char)}
    (resolves : Resolves source.lines theUser rest lines) :
    processValias source theUser default state =
      if ∃ behind, rest = some behind ∧ defSize ≤ defaultVariable.length + behind.length then
        .error .outOfBounds
      else .ok (lines.map (AliasDelivery.mk (rest.or default)), if lines = [] then 0 else 1) := by
  cases resolves with
  | own given =>
      rcases select_some given state with ⟨line, after, selected⟩
      have served := deliverAliases_select (rfl : source.lines theUser = _) default state
      rw [selected] at served
      rw [processValias, selectAlias, selected, if_neg (by simp)]
      exact congrArg Except.ok served
  | @wildcard front rest empty whole given longest =>
      rcases select_none empty state with ⟨after, selected⟩
      have below : front.length + 1 ≤ theUser.length := by
        rw [whole, List.length_append, List.length_cons]
        omega
      rcases wildcard_skip default fits (Nat.le_refl _) below after
        (fun longer behind equal above => longest longer behind equal above) with ⟨last, skipped⟩
      rw [processValias, selectAlias, selected]
      simp only [skipped, wildcard_hit fits whole given]
      by_cases long : defSize ≤ defaultVariable.length + rest.length
      · rw [if_pos long, if_pos ⟨rest, rfl, long⟩]
        rfl
      · rw [if_neg long, if_neg]
        · exact congrArg Except.ok (deliverAliases_select rfl (some rest) last)
        · intro other
          rcases other with ⟨behind, same, tooLong⟩
          cases same
          exact long tooLong
  | unknown empty none =>
      rcases select_none empty state with ⟨after, selected⟩
      rcases wildcard_skip default fits (Nat.le_refl _) (Nat.zero_le _) after
        (fun front rest whole _ => none front rest whole) with ⟨last, skipped⟩
      rw [processValias, selectAlias, selected]
      simp only [skipped]
      rw [if_neg (by simp), wildcard]
      rfl

end Process

/-- The recipients whose name fits `TheUser`. -/
abbrev Recipient := { name : List Char // name.length < authSize }

/-- The message is delivered rightly exactly if what is left of the name behind a wildcard fits
`def`. -/
theorem processValias_iff (source : AliasSource) (recipient : Recipient)
    (default : Option (List Char)) (state : source.State) :
    DeliversRightly source recipient.val default state ↔
      ∀ rest lines, Resolves source.lines recipient.val (some rest) lines → rest.length < 142 := by
  constructor
  · intro rightly rest lines resolves
    rcases rightly with ⟨other, found, -, ran⟩
    rw [processValias_of_resolves recipient.property state resolves] at ran
    by_contra long
    have tooLong : defSize ≤ defaultVariable.length + rest.length := by
      have size : defSize = 150 := rfl
      have variable_ : defaultVariable.length = 8 := rfl
      omega
    rw [if_pos ⟨rest, rfl, tooLong⟩] at ran
    cases ran
  · intro short
    rcases exists_resolves source.lines recipient.val with ⟨rest, lines, resolves⟩
    refine ⟨rest, lines, resolves, ?_⟩
    rw [processValias_of_resolves recipient.property state resolves, if_neg]
    intro long
    rcases long with ⟨behind, rfl, tooLong⟩
    have bound := short behind lines resolves
    have size : defSize = 150 := rfl
    have variable_ : defaultVariable.length = 8 := rfl
    omega

/-! ## Alias files -/

/-- A domain that `vget_assign` knows, under a name and its real one. -/
structure AliasDomain where
  lookup : DomainLookup
  realDomain : List Char
  dir : List Char
  known : lookup realDomain = some (realDomain, dir)
  roomy : Roomy dir
  fits : realDomain.length ≤ maxPwDomain

namespace AliasDomain

variable (aliasDomain : AliasDomain) (files : Files)

/-- The names of the domain. -/
abbrev Name := { domain : List Char // aliasDomain.lookup domain =
  some (aliasDomain.realDomain, aliasDomain.dir) ∧ domain.length ≤ maxPwDomain }

/-- What `vpalias_select` and `vpalias_select_next` return for an alias. -/
def aliasLines (name : List Char) : List (List Char) :=
  if maxPwName < name.length then []
  else (fgetsLoop maxAliasLine ((files (aliasPath aliasDomain.dir name)).getD [])).map trimLine

variable {aliasDomain files}

/-- The lines of an open file. -/
theorem enumerates_stream (stream : List Char) (scan : AliasScan) :
    Enumerates vpaliasSelectNext (vpaliasSelectNext { scan with aliasFs := some stream })
      ((fgetsLoop maxAliasLine stream).map trimLine) := by
  induction count : stream.length using Nat.strongRecOn generalizing stream with
  | ind length induction =>
      cases stream with
      | nil => exact .ended
      | cons char stream =>
          have room : 1 < maxAliasLine := by decide
          have shorter := length_takeLine_rest_lt (Nat.sub_pos_of_lt room) char stream
          have read : fgets maxAliasLine (char :: stream) =
            some (takeLine (maxAliasLine - 1) (char :: stream)) := rfl
          rw [vpaliasSelectNext]
          simp only [read]
          rw [fgetsLoop_eq room read, List.map_cons]
          exact .line (induction _ (count ▸ shorter) _ rfl)

theorem aliasNamesCode_isSome_iff (name : List Char) (domain : aliasDomain.Name) :
    (aliasNamesCode name domain.val).isSome = true ↔ maxPwName < name.length := by
  rw [aliasNamesCode, if_neg (Nat.not_lt.mpr domain.property.2)]
  split
  · rename_i long
    exact ⟨fun _ => long, fun _ => rfl⟩
  · rename_i short
    exact ⟨fun impossible => absurd impossible (by decide), fun long => absurd long short⟩

/-- The domain that `vpalias_select` leaves. -/
theorem vpaliasSelect_domain (name : List Char) (domain : aliasDomain.Name) (scan : AliasScan) :
    aliasDomain.lookup (vpaliasSelect aliasDomain.lookup files name domain.val scan).2.1 =
        some (aliasDomain.realDomain, aliasDomain.dir) ∧
      (vpaliasSelect aliasDomain.lookup files name domain.val scan).2.1.length ≤ maxPwDomain := by
  rw [vpaliasSelect]
  split
  · exact domain.property
  · simp only [domain.property.1]
    split <;> exact ⟨aliasDomain.known, aliasDomain.fits⟩

variable (files) in
theorem vpaliasSelect_cases (name : List Char) (domain : aliasDomain.Name) (scan : AliasScan) :
    ((vpaliasSelect aliasDomain.lookup files name domain.val scan).1 = none ∧
        aliasDomain.aliasLines files name = []) ∨
      ∃ (stream : List Char) (other : AliasScan),
        (vpaliasSelect aliasDomain.lookup files name domain.val scan).1 =
          (vpaliasSelectNext { other with aliasFs := some stream }).1 ∧
        (vpaliasSelect aliasDomain.lookup files name domain.val scan).2.2 =
          (vpaliasSelectNext { other with aliasFs := some stream }).2 ∧
        aliasDomain.aliasLines files name = (fgetsLoop maxAliasLine stream).map trimLine := by
  rw [vpaliasSelect, aliasLines]
  by_cases long : maxPwName < name.length
  · rw [if_pos ((aliasNamesCode_isSome_iff name domain).mpr long), if_pos long]
    exact .inl ⟨rfl, rfl⟩
  · rw [if_neg (mt (aliasNamesCode_isSome_iff name domain).mp long), if_neg long]
    simp only [domain.property.1]
    cases present : files (aliasPath aliasDomain.dir name) with
    | none => exact .inl ⟨rfl, rfl⟩
    | some text => exact .inr ⟨text, _, rfl, rfl, rfl⟩

variable (aliasDomain files)

/-- The alias files of the domain as a source of aliases. -/
def vpalias : AliasSource where
  State := aliasDomain.Name × AliasScan
  select name state :=
    let selected := vpaliasSelect aliasDomain.lookup files name state.1.val state.2
    (selected.1, ⟨selected.2.1, vpaliasSelect_domain name state.1 state.2⟩, selected.2.2)
  next state := ((vpaliasSelectNext state.2).1, state.1, (vpaliasSelectNext state.2).2)
  lines := aliasDomain.aliasLines files
  serves name state := by
    rcases vpaliasSelect_cases files name state.1 state.2 with
      ⟨nothing, empty⟩ | ⟨stream, other, first, later, lines⟩
    · rw [empty]
      simp only [nothing]
      exact .ended
    · rw [lines]
      simp only [first, later]
      exact (enumerates_stream stream other).lift _
  rounds state := ((state.2.aliasFs).getD []).length
  enough name state := by
    rcases vpaliasSelect_cases files name state.1 state.2 with
      ⟨-, empty⟩ | ⟨stream, other, -, later, lines⟩
    · rw [empty]
      exact Nat.zero_le _
    · rw [lines, List.length_map]
      simp only [later]
      cases stream with
      | nil => exact Nat.zero_le _
      | cons char stream =>
          have read : fgets maxAliasLine (char :: stream) =
            some (takeLine (maxAliasLine - 1) (char :: stream)) := rfl
          rw [fgetsLoop_eq (by decide) read, List.length_cons, vpaliasSelectNext]
          simp only [read]
          exact Nat.succ_le_succ (length_fgetsLoop_le _ _)

end AliasDomain

/-- A domain with an alias for all names that start with `a-`. -/
def wildcardDomain : AliasDomain where
  lookup := fun domain => if domain = "b.c".toList then some (domain, "/v".toList) else none
  realDomain := "b.c".toList
  dir := "/v".toList
  known := rfl
  roomy := by decide
  fits := by decide

def wildcardFiles : Files := fun path =>
  if path = "/v/.qmail-a-default".toList then some "&c@d.e\n".toList else none

/-- The value of `DEFAULT` is written behind the end of its buffer. -/
theorem processValias_overruns :
    let name := "a-".toList ++ List.replicate 142 'b'
    name.length < authSize ∧ (wildcardDomain.aliasLines wildcardFiles name = []) ∧
      wildcardDomain.aliasLines wildcardFiles (defaultAlias ['a']) = ["&c@d.e".toList] ∧
      processValias (wildcardDomain.vpalias wildcardFiles) name none
        (⟨"b.c".toList, rfl, by decide⟩, .initial) = .error .outOfBounds := by
  decide +kernel

end Vpopmail.Vdelivermail

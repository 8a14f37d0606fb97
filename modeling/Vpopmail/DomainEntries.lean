import Vpopmail.AddedLines
import Vpopmail.AliasDomains
import Vpopmail.Foundation.Aliases

/-! # The entries of `users/assign`

The lines of domains as bindings: how they are written, how they are read back, and which
records `qmail-newu` makes of them.
-/

namespace Vpopmail

open Text Vpopmail.Stream Aliases

/-! ## Names -/

/-- A name that passes the checks on domains. -/
structure DomainName (name : List Char) : Prop where
  lower : lowerit name = name
  valid : isDomainValid name = true
  short : name.length ≤ maxPwDomain

theorem DomainName.free {name : List Char} (domain : DomainName name) {char : Char}
    (other : domainChar char = false) : Free char name := by
  intro member
  have valid := List.all_eq_true.mp domain.valid char member
  rw [other] at valid
  cases valid

theorem DomainName.colon {name : List Char} (domain : DomainName name) : Free ':' name :=
  domain.free (by decide)

/-! ## Bindings -/

structure DomainData where
  uid : BitVec 32
  gid : BitVec 32
  dir : List Char
  deriving DecidableEq

abbrev DomainBinding := Binding (List Char) DomainData

/-- The line of a binding. -/
def entryLine (binding : DomainBinding) : List Char :=
  assignLine binding.name binding.root binding.data.dir binding.data.uid binding.data.gid

/-- The name in front of the first colon of a line, with a plus sign before it and a minus
sign behind it. -/
def nameOf (line : List Char) : List Char := ((cut ':' line).1.drop 1).dropLast

/-- The real domain, which is between the first two colons. -/
def rootOf (line : List Char) : List Char := (cut ':' ((cut ':' line).2.getD [])).1

/-- What the steps that add entries make sure of. -/
structure EntryWellFormed (binding : DomainBinding) : Prop where
  name : DomainName binding.name
  root : DomainName binding.root
  rooted : binding.root ≠ []
  colon : Free ':' binding.data.dir
  newline : Free '\n' binding.data.dir
  plain : Free nul binding.data.dir
  nonempty : binding.data.dir ≠ []
  fits : (entryLine binding).length + 1 < maxBuff

/-- The fields behind the first one. -/
def fieldsLine (binding : DomainBinding) : List Char :=
  binding.root ++ ':' :: (Decimal.spellNat binding.data.uid.toNat ++
    ':' :: (Decimal.spellNat binding.data.gid.toNat ++ ':' :: (binding.data.dir ++
      ':' :: ['-', ':', ':'])))

theorem entryLine_eq (binding : DomainBinding) :
    entryLine binding = ('+' :: binding.name ++ ['-']) ++ ':' :: fieldsLine binding := by
  simp [entryLine, fieldsLine, assignLine]

theorem spellNat_colon (value : Nat) : Free ':' (Decimal.spellNat value) := by
  intro member
  have digit := Decimal.isDigit_of_mem_spellNat member
  exact absurd digit (by decide)

section Fields

variable {binding other : DomainBinding}

theorem cut_entryLine (name : Free ':' binding.name) :
    cut ':' (entryLine binding) = ('+' :: binding.name ++ ['-'], some (fieldsLine binding)) := by
  rw [entryLine_eq]
  apply cut_append_cons
  simpa using name

theorem nameOf_entryLine (name : Free ':' binding.name) :
    nameOf (entryLine binding) = binding.name := by
  rw [nameOf, cut_entryLine name]
  simp

theorem rootOf_entryLine (name : Free ':' binding.name) (root : Free ':' binding.root) :
    rootOf (entryLine binding) = binding.root := by
  rw [rootOf, cut_entryLine name, Option.getD_some, fieldsLine, cut_append_cons root]

theorem spellNat_injective {value second : Nat}
    (same : Decimal.spellNat value = Decimal.spellNat second) : value = second := by
  have read := Decimal.readDigits_spellNat_append value Decimal.stops_nil
  rw [same, Decimal.readDigits_spellNat_append second Decimal.stops_nil] at read
  exact read.symm

/-- The line tells what the binding is. -/
theorem entryLine_injective (name : Free ':' binding.name) (root : Free ':' binding.root)
    (otherName : Free ':' other.name) (otherRoot : Free ':' other.root)
    (same : entryLine binding = entryLine other) : binding = other := by
  have names := nameOf_entryLine name
  rw [same, nameOf_entryLine otherName] at names
  have roots := rootOf_entryLine name root
  rw [same, rootOf_entryLine otherName otherRoot] at roots
  have first := congrArg (cut ':') same
  rw [cut_entryLine name, cut_entryLine otherName] at first
  have fields : fieldsLine binding = fieldsLine other := by
    simpa using (Prod.ext_iff.mp first).2
  obtain ⟨_, afterRoot⟩ := append_cons_inj root otherRoot fields
  obtain ⟨uidText, afterUid⟩ := append_cons_inj (spellNat_colon _) (spellNat_colon _) afterRoot
  obtain ⟨gidText, afterGid⟩ := append_cons_inj (spellNat_colon _) (spellNat_colon _) afterUid
  have dir := List.append_cancel_right afterGid
  have uid := BitVec.eq_of_toNat_eq (spellNat_injective uidText)
  have gid := BitVec.eq_of_toNat_eq (spellNat_injective gidText)
  rcases binding with ⟨bindingName, bindingRoot, bindingUid, bindingGid, bindingDir⟩
  rcases other with ⟨otherName, otherRoot, otherUid, otherGid, otherDir⟩
  simp only at names roots uid gid dir
  rw [names, roots, uid, gid, dir]

end Fields

/-! ## Reading -/

section Read

variable {binding : DomainBinding}

theorem strtok_field {token : List Char} (free : Free ':' token) (nonempty : token ≠ [])
    (rest : List Char) : strtok colon (token ++ ':' :: rest) = some (token, rest) := by
  have plain : ∀ char ∈ token, colon char = false := by
    intro char member
    exact decide_eq_false fun equal => free (equal ▸ member)
  cases token with
  | nil => exact absurd rfl nonempty
  | cons head token =>
      apply strtok_token_append (plain head List.mem_cons_self) _ rfl
      exact fun char member => plain char (List.mem_cons_of_mem _ member)

/-- What `get_domain_entries` reads of a line. -/
def readEntry (binding : DomainBinding) : DomainEntry where
  domain := binding.name
  realDomain := binding.root
  uid := Decimal.atoi (Decimal.spellNat binding.data.uid.toNat)
  gid := Decimal.atoi (Decimal.spellNat binding.data.gid.toNat)
  path := binding.data.dir

/-- Entries without a period in their names are not read. -/
theorem parseEntry_entryLine (wellFormed : EntryWellFormed binding) (behind : List Char) :
    parseEntry (entryLine binding ++ behind) =
      if '.' ∈ binding.name then some (readEntry binding) else none := by
  have name : Free ':' (binding.name ++ ['-']) := by
    simpa using wellFormed.name.colon
  have start : entryLine binding ++ behind = '+' :: (binding.name ++ ['-'] ++ ':' ::
      (binding.root ++ ':' :: (Decimal.spellNat binding.data.uid.toNat ++
        ':' :: (Decimal.spellNat binding.data.gid.toNat ++ ':' :: (binding.data.dir ++
          ':' :: (['-', ':', ':'] ++ behind)))))) := by
    simp [entryLine_eq, fieldsLine]
  have period : (binding.name ++ ['-']).contains '.' = decide ('.' ∈ binding.name) := by
    simp
  rw [start, parseEntry, strtok_field name (by simp), Option.bind_some]
  simp only [period]
  rcases Classical.em ('.' ∈ binding.name) with dotted | plain
  · have long : ¬ (binding.name ++ ['-']).length < 2 := by
      have positive := List.length_pos_of_mem dotted
      rw [List.length_append, List.length_singleton]
      omega
    have last : (binding.name ++ ['-']).getLast? = some '-' := by simp
    have field : (binding.root ++ ':' :: (Decimal.spellNat binding.data.uid.toNat ++
        ':' :: (Decimal.spellNat binding.data.gid.toNat ++ ':' :: (binding.data.dir ++
          ':' :: (['-', ':', ':'] ++ behind))))).head? ≠ some ':' := by
      rw [List.head?_append_of_ne_nil _ wellFormed.rooted]
      exact fun first => wellFormed.root.colon (List.mem_of_mem_head? first)
    simp only [dotted, decide_true, Bool.not_true, Bool.false_eq_true, if_false, if_true]
    rw [strtok_field wellFormed.root.colon wellFormed.rooted, Option.bind_some]
    simp only [long, field, last, decide_false, Bool.or_self, ne_eq, not_true_eq_false,
      Bool.false_eq_true, if_false]
    rw [strtok_field (spellNat_colon _) (Decimal.spellNat_ne_nil _), Option.bind_some,
      strtok_field (spellNat_colon _) (Decimal.spellNat_ne_nil _), Option.bind_some,
      strtok_field wellFormed.colon wellFormed.nonempty, Option.map_some]
    simp [readEntry]
  · simp [plain]

end Read

/-! ## Files -/

/-- `users/assign` with the lines of some bindings. -/
def assignText (bindings : List DomainBinding) : List Char :=
  printFile .assign (bindings.map entryLine)

section Files

variable {binding : DomainBinding} {bindings : List DomainBinding} {line : List Char}

theorem EntryWellFormed.free_line (wellFormed : EntryWellFormed binding) {char : Char}
    (other : char ∉ ['+', '-', ':']) (digit : char.isDigit = false)
    (name : domainChar char = false) (dir : Free char binding.data.dir) :
    Free char (entryLine binding) :=
  free_assignLine other digit (wellFormed.name.free name) (wellFormed.root.free name) dir

theorem EntryWellFormed.printable (wellFormed : EntryWellFormed binding) :
    Printable (entryLine binding) := by
  refine ⟨?_, ?_, Nat.lt_of_succ_lt wellFormed.fits⟩
  · exact wellFormed.free_line (by decide) (by decide) (by decide) wellFormed.newline
  · exact wellFormed.free_line (by decide) (by decide) (by decide) wellFormed.plain

theorem entryLine_ne_period (binding : DomainBinding) : entryLine binding ≠ ['.'] := by
  intro same
  have first := congrArg List.head? same
  rw [entryLine_eq] at first
  cases first

theorem assignText_eq (bindings : List DomainBinding) :
    assignText bindings = printLines (bindings.map entryLine ++ [['.']]) := rfl

theorem printable_of_mem_assign (wellFormed : ∀ binding ∈ bindings, EntryWellFormed binding)
    (member : line ∈ bindings.map entryLine ++ [['.']]) :
    Printable line ∧ line.length + 1 < maxBuff := by
  rcases List.mem_append.mp member with inside | last
  · rcases List.mem_map.mp inside with ⟨binding, known, rfl⟩
    exact ⟨(wellFormed binding known).printable, (wellFormed binding known).fits⟩
  · have ended : line ∈ ending .assign := last
    exact printable_of_mem_ending ended

theorem linesOf_assignText (wellFormed : ∀ binding ∈ bindings, EntryWellFormed binding) :
    linesOf (some (assignText bindings)) = bindings.map entryLine ++ [['.']] := by
  apply linesOf_printLines
  exact fun line member => (printable_of_mem_assign wellFormed member).1.newline

theorem clean_assignText (wellFormed : ∀ binding ∈ bindings, EntryWellFormed binding) :
    Clean (some (assignText bindings)) := by
  constructor
  · intro line member
    rw [linesOf_assignText wellFormed] at member
    exact (printable_of_mem_assign wellFormed member).2
  · intro line member
    rw [linesOf_assignText wellFormed] at member
    exact (printable_of_mem_assign wellFormed member).1.plain

theorem mem_entries_assignText (wellFormed : ∀ binding ∈ bindings, EntryWellFormed binding) :
    line ∈ entries .assign (some (assignText bindings)) ↔
      ∃ binding ∈ bindings, entryLine binding = line := by
  rw [(clean_assignText wellFormed).mem_entries, linesOf_assignText wellFormed, ending,
    List.mem_append, List.mem_map]
  constructor
  · rintro ⟨inside | last, other⟩
    · exact inside
    · exact absurd last other
  · rintro ⟨binding, member, rfl⟩
    refine ⟨.inl ⟨binding, member, rfl⟩, ?_⟩
    rw [List.mem_singleton]
    exact entryLine_ne_period binding

/-- The chunks that `get_domain_entries` reads are the lines with their newlines. -/
theorem fgetsLoop_assignText (wellFormed : ∀ binding ∈ bindings, EntryWellFormed binding) :
    fgetsLoop maxBuff (assignText bindings) =
      (bindings.map entryLine ++ [['.']]).map (· ++ ['\n']) := by
  rw [assignText_eq, printLines, List.flatMap_def]
  apply fgetsLoop_lines
  intro chunk member
  rcases List.mem_map.mp member with ⟨line, known, rfl⟩
  rcases printable_of_mem_assign wellFormed known with ⟨printable, fits⟩
  refine ⟨isLine_append_newline printable.newline, ?_⟩
  simpa using fits

/-- The entries that are read are the bindings with a period in their names. -/
theorem parsed_assignText (wellFormed : ∀ binding ∈ bindings, EntryWellFormed binding) :
    (fgetsLoop maxBuff (assignText bindings)).filterMap (fun chunk => parseEntry (cstring chunk)) =
      (bindings.filter fun binding => '.' ∈ binding.name).map readEntry := by
  rw [fgetsLoop_assignText wellFormed, List.map_append, List.filterMap_append]
  have last : ([['.']].map (· ++ ['\n'])).filterMap (fun chunk => parseEntry (cstring chunk)) =
      ([] : List DomainEntry) := by decide
  rw [last, List.append_nil, List.map_map, List.filterMap_map]
  clear last
  induction bindings with
  | nil => rfl
  | cons binding bindings induction =>
      have own := wellFormed binding List.mem_cons_self
      have later := induction fun other member => wellFormed other (List.mem_cons_of_mem _ member)
      have text : cstring (entryLine binding ++ ['\n']) = entryLine binding ++ ['\n'] := by
        apply cstring_of_free
        rw [free_append]
        exact ⟨own.printable.plain, by decide⟩
      rw [List.filterMap_cons, Function.comp_apply, Function.comp_apply, text,
        parseEntry_entryLine own]
      rcases Classical.em ('.' ∈ binding.name) with dotted | undotted
      · rw [if_pos dotted, List.filter_cons_of_pos (by simpa using dotted), List.map_cons, ← later]
      · rw [if_neg undotted, List.filter_cons_of_neg (by simpa using undotted), ← later]

end Files

/-! ## Records -/

/-- The record of a binding in `users/cdb`. -/
def bindingData (binding : DomainBinding) : CdbData where
  val := binding.root ++ nul :: (Decimal.spellNat binding.data.uid.toNat ++
    nul :: (Decimal.spellNat binding.data.gid.toNat ++ nul :: (binding.data.dir ++
      [nul, '-', nul])))
  property := by
    simp only [List.count_append, List.count_cons_self]
    omega

def recordOfBinding (binding : DomainBinding) : Assigned :=
  ⟨binding.root, binding.data.uid, binding.data.gid, binding.data.dir⟩

/-- What `qmail-newu` makes of `users/assign`: the record of a name is that of its first
line. -/
structure QmailNewu (newu : Option (List Char) → Option Cdb) : Prop where
  compiles : ∀ bindings : List DomainBinding, (∀ binding ∈ bindings, EntryWellFormed binding) →
    ∃ cdb, newu (some (assignText bindings)) = some cdb ∧
      ∀ name, lowerit name = name → cdb (assignKey name) =
        (bindings.find? fun binding => binding.name = name).map bindingData

theorem skipField_append {field : List Char} (free : Free nul field) (rest : List Char) :
    skipField (field ++ nul :: rest) = rest := by
  rw [skipField, dropWhile_ne_append_cons free, List.drop_succ_cons, List.drop_zero]

theorem spellNat_plain (value : Nat) : Free nul (Decimal.spellNat value) := by
  intro member
  have digit := Decimal.isDigit_of_mem_spellNat member
  exact absurd digit (by decide)

/-- `vget_assign` reads back what the binding says. -/
theorem assigned_bindingData {binding : DomainBinding} (wellFormed : EntryWellFormed binding) :
    assigned (bindingData binding) = recordOfBinding binding := by
  have root : Free nul binding.root := wellFormed.root.free (by decide)
  have uid := spellNat_plain binding.data.uid.toNat
  have gid := spellNat_plain binding.data.gid.toNat
  simp only [assigned, bindingData, skipField_append root, skipField_append uid,
    skipField_append gid, cstring_append_nul root, cstring_append_nul uid,
    cstring_append_nul gid, cstring_append_nul wellFormed.plain,
    Decimal.ofInt_atoi_spellNat_toNat, recordOfBinding]

end Vpopmail

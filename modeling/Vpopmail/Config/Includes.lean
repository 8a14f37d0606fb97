import Vpopmail.Config.Parsing
import Vpopmail.Foundation.Worklist

/-! # Files that include one another

`config_read` reads a file and then, one after the other, the files that the atoms of labels
called `include` name. What these files contain is put behind the labels that are there, and
so are the files that they include.
-/

namespace Vpopmail.Config

open Text Vpopmail.Stream Buffer Relation

/-! ## Reading -/

/-- The working directory, unless it is too long to be read, and the files that can be opened,
by their paths. -/
structure FileSet where
  cwd : Option (List Char)
  files : List (List Char × List Char)

/-- The size of the buffers for paths. -/
def pathSize : Nat := 255

/-- `config_fullpath`. -/
def configFullpath (cwd : Option (List Char)) (filename : List Char) : Option (List Char) :=
  if filename.head? = some '/' then some (filename.take (pathSize - 1))
  else
    match cwd with
    | none => none
    | some cwd =>
        if pathSize - 1 ≤ cwd.length + filename.length then none
        else some ((cwd ++ '/' :: filename).take (pathSize - 2))

/-- `config_begin_read` of the file with the given path. -/
def readPath (rounds : Nat) (set : FileSet) (path : Option (List Char))
    (config : Configuration) : Reading Configuration :=
  match path.bind fun path => set.files.lookup path with
  | none => .error .unreadable
  | some stream => configContents rounds stream config

/-- `config_begin_read`. -/
def configBeginRead (rounds : Nat) (set : FileSet) (filename : List Char)
    (config : Configuration) : Reading Configuration :=
  readPath rounds set (configFullpath set.cwd filename) config

def isInclude (label : Label) : Bool := sameText label.name "include".toList

/-- The first atom that is not ignored, with its position. -/
def firstAtom : List Atom → Option (Nat × List Char)
  | [] => none
  | atom :: atoms =>
      if atom.ignore then (firstAtom atoms).map fun (j, data) => (j + 1, data)
      else some (0, atom.data)

/-- The first include that was not read yet, with the positions of its label and its atom. -/
def firstInclude : List Label → Option (Nat × Nat × List Char)
  | [] => none
  | label :: labels =>
      match if isInclude label then firstAtom label.atoms else none with
      | some (j, data) => some (0, j, data)
      | none => (firstInclude labels).map fun (i, j, data) => (i + 1, j, data)

/-- `a->flags |= CAF_IGNORE`. -/
def ignoreAt (i j : Nat) (labels : List Label) : List Label :=
  labels.modify i fun label =>
    { label with atoms := label.atoms.modify j fun atom => { atom with ignore := true } }

/-- `config_parse_includes`. Without a configuration it returns 0. -/
def configParseIncludes (rounds : Nat) (set : FileSet) (config : Configuration) :
    Reading (Option Configuration) :=
  match firstInclude config.labels with
  | none => .ok none
  | some (i, j, data) =>
      (configBeginRead rounds set data config).map fun after =>
        some { after with labels := ignoreAt i j after.labels }

/-- A configuration, or an error that the function reports. -/
def Finished {Value : Type} (result : Reading Value) : Prop :=
  ∀ failure, result = .error failure → failure ≠ .unfinished ∧ failure ≠ .fault

/-- Labels are added, and atoms to the last one. -/
inductive Extends : List Label → List Label → Prop
  | refl (labels : List Label) : Extends labels labels
  | label (labels : List Label) (new : Label) : Extends labels (labels ++ [new])
  | atoms (front : List Label) (last : Label) (more : List Atom) :
      Extends (front ++ [last]) (front ++ [{ last with atoms := last.atoms ++ more }])
  | trans {labels between after : List Label} (first : Extends labels between)
      (second : Extends between after) : Extends labels after

/-- What the atoms name that are not ignored. -/
def named (atoms : List Atom) : List (List Char) :=
  (atoms.filter fun atom => !atom.ignore).map Atom.data

def pendingAtoms (label : Label) : List (List Char) :=
  if isInclude label then named label.atoms else []

/-- The files that are still to be read. -/
def pending (labels : List Label) : List (List Char) :=
  labels.flatMap pendingAtoms

theorem named_append (atoms more : List Atom) : named (atoms ++ more) = named atoms ++ named more := by
  rw [named, List.filter_append, List.map_append]
  rfl

theorem pendingAtoms_append (label : Label) (more : List Atom) :
    ∃ added, pendingAtoms { label with atoms := label.atoms ++ more } =
      pendingAtoms label ++ added := by
  by_cases includes : isInclude label = true
  · have same : isInclude { label with atoms := label.atoms ++ more } = true := includes
    refine ⟨named more, ?_⟩
    rw [pendingAtoms, pendingAtoms, if_pos includes, if_pos same, named_append]
  · have same : ¬isInclude { label with atoms := label.atoms ++ more } = true := includes
    refine ⟨[], ?_⟩
    rw [pendingAtoms, pendingAtoms, if_neg includes, if_neg same]
    rfl

theorem Extends.pending_eq {labels after : List Label} (extension : Extends labels after) :
    ∃ added, pending after = pending labels ++ added := by
  induction extension with
  | refl labels => exact ⟨[], (List.append_nil _).symm⟩
  | label labels new => exact ⟨pending [new], List.flatMap_append⟩
  | atoms front last more =>
      rcases pendingAtoms_append last more with ⟨added, same⟩
      refine ⟨added, ?_⟩
      rw [pending, pending, List.flatMap_append, List.flatMap_append,
        List.flatMap_singleton, List.flatMap_singleton, same, List.append_assoc]
  | trans _ _ first second =>
      rcases first with ⟨old, first⟩
      rcases second with ⟨new, second⟩
      refine ⟨old ++ new, ?_⟩
      rw [second, first, List.append_assoc]

/-! ## The include that is read -/

theorem firstAtom_append {atoms : List Atom} {j : Nat} {data : List Char}
    (found : firstAtom atoms = some (j, data)) (more : List Atom) :
    firstAtom (atoms ++ more) = some (j, data) := by
  induction atoms generalizing j data with
  | nil => cases found
  | cons atom atoms induction =>
      rw [List.cons_append, firstAtom]
      rw [firstAtom] at found
      by_cases ignore : atom.ignore = true
      · rw [if_pos ignore, Option.map_eq_some_iff] at found
        rcases found with ⟨⟨earlier, text⟩, found, same⟩
        rw [if_pos ignore, induction found, Option.map_some, same]
      · rw [if_neg ignore] at found
        rw [if_neg ignore, found]

/-- The atom that is found is the first one that names a file, and no longer does once it is
ignored. -/
theorem named_of_firstAtom {atoms : List Atom} {j : Nat} {data : List Char}
    (found : firstAtom atoms = some (j, data)) :
    named atoms = data :: named (atoms.modify j fun atom => { atom with ignore := true }) := by
  induction atoms generalizing j data with
  | nil => cases found
  | cons atom atoms induction =>
      rw [firstAtom] at found
      by_cases ignore : atom.ignore = true
      · rw [if_pos ignore, Option.map_eq_some_iff] at found
        rcases found with ⟨⟨earlier, text⟩, found, same⟩
        cases same
        have step := induction found
        rw [List.modify_succ_cons, named, List.filter_cons_of_neg (by simp [ignore]), named,
          List.filter_cons_of_neg (by simp [ignore])]
        exact step
      · rw [if_neg ignore] at found
        cases found
        rw [List.modify_zero_cons, named, List.filter_cons_of_pos (by simp [ignore]), named,
          List.filter_cons_of_neg (by simp)]
        rfl

theorem named_of_firstAtom_none {atoms : List Atom} (absent : firstAtom atoms = none) :
    named atoms = [] := by
  induction atoms with
  | nil => rfl
  | cons atom atoms induction =>
      rw [firstAtom] at absent
      by_cases ignore : atom.ignore = true
      · rw [if_pos ignore, Option.map_eq_none_iff] at absent
        rw [named, List.filter_cons_of_neg (by simp [ignore])]
        exact induction absent
      · rw [if_neg ignore] at absent
        cases absent

/-- What is read later does not change which include comes first. -/
theorem Extends.firstInclude_eq {labels after : List Label} (extension : Extends labels after)
    {i j : Nat} {data : List Char} (found : firstInclude labels = some (i, j, data)) :
    firstInclude after = some (i, j, data) := by
  induction extension generalizing i j data with
  | refl labels => exact found
  | label labels new =>
      induction labels generalizing i j data with
      | nil => cases found
      | cons label labels induction =>
          rw [firstInclude] at found
          rw [List.cons_append, firstInclude]
          cases here : (if isInclude label then firstAtom label.atoms else none) with
          | some place =>
              rw [here] at found
              exact found
          | none =>
              rw [here] at found
              rcases Option.map_eq_some_iff.mp found with ⟨⟨i, j, text⟩, later, same⟩
              have kept := induction later
              simp only [kept, Option.map_some, same]
  | atoms front last more =>
      induction front generalizing i j data with
      | nil =>
          rw [List.nil_append, firstInclude] at found
          rw [List.nil_append, firstInclude]
          cases here : (if isInclude last then firstAtom last.atoms else none) with
          | none =>
              rw [here] at found
              cases found
          | some place =>
              have includes : isInclude last = true := by
                by_contra other
                rw [if_neg other] at here
                cases here
              have same : isInclude { last with atoms := last.atoms ++ more } = true := includes
              rw [if_pos includes] at here
              rw [if_pos includes, here] at found
              simp only [if_pos same, firstAtom_append here, found]
      | cons label front induction =>
          rw [List.cons_append, firstInclude] at found
          rw [List.cons_append, firstInclude]
          cases here : (if isInclude label then firstAtom label.atoms else none) with
          | some place =>
              rw [here] at found
              exact found
          | none =>
              rw [here] at found
              rcases Option.map_eq_some_iff.mp found with ⟨⟨i, j, text⟩, later, same⟩
              have kept := induction later
              simp only [kept, Option.map_some, same]
  | trans _ _ first second => exact second (first found)

theorem pendingAtoms_of_some {label : Label} {j : Nat} {data : List Char}
    (found : (if isInclude label then firstAtom label.atoms else none) = some (j, data)) :
    pendingAtoms label = data :: pendingAtoms
      { label with atoms := label.atoms.modify j fun atom => { atom with ignore := true } } := by
  by_cases includes : isInclude label = true
  · have same : isInclude { label with
        atoms := label.atoms.modify j fun atom => { atom with ignore := true } } = true := includes
    rw [if_pos includes] at found
    rw [pendingAtoms, pendingAtoms, if_pos includes, if_pos same]
    exact named_of_firstAtom found
  · rw [if_neg includes] at found
    cases found

theorem pendingAtoms_of_none {label : Label}
    (absent : (if isInclude label then firstAtom label.atoms else none) = none) :
    pendingAtoms label = [] := by
  by_cases includes : isInclude label = true
  · rw [if_pos includes] at absent
    rw [pendingAtoms, if_pos includes, named_of_firstAtom_none absent]
  · rw [pendingAtoms, if_neg includes]

/-- The include that is found is the first file to be read, and no longer is once it is
ignored. -/
theorem pending_of_firstInclude {labels : List Label} {i j : Nat} {data : List Char}
    (found : firstInclude labels = some (i, j, data)) :
    pending labels = data :: pending (ignoreAt i j labels) := by
  induction labels generalizing i j data with
  | nil => cases found
  | cons label labels induction =>
      rw [firstInclude] at found
      rw [pending, List.flatMap_cons]
      cases here : (if isInclude label then firstAtom label.atoms else none) with
      | some place =>
          rw [here] at found
          cases found
          rw [pendingAtoms_of_some here]
          rfl
      | none =>
          rw [here] at found
          rcases Option.map_eq_some_iff.mp found with ⟨⟨earlier, j, text⟩, later, same⟩
          cases same
          have step := induction later
          rw [ignoreAt, List.modify_succ_cons, pending, List.flatMap_cons,
            pendingAtoms_of_none here]
          exact step

theorem pending_of_firstInclude_none {labels : List Label} (absent : firstInclude labels = none) :
    pending labels = [] := by
  induction labels with
  | nil => rfl
  | cons label labels induction =>
      rw [firstInclude] at absent
      rw [pending, List.flatMap_cons]
      cases here : (if isInclude label then firstAtom label.atoms else none) with
      | some place =>
          rw [here] at absent
          cases absent
      | none =>
          rw [here] at absent
          rw [pendingAtoms_of_none here]
          exact induction (Option.map_eq_none_iff.mp absent)

/-! ## Files that are read -/

/-- Parsing a line adds to the labels. -/
theorem configParseLabel_extends {newlabel : Option (List Char)} {labeldata : List Char}
    {labels after : List Label} (parsed : configParseLabel newlabel labeldata labels = .ok after) :
    Extends labels after := by
  cases newlabel with
  | some newlabel =>
      rw [configParseLabel] at parsed
      cases name : convert newlabel with
      | error failure =>
          rw [name] at parsed
          cases parsed
      | ok name' =>
          cases atoms : labelAtoms (labeldata.length + 1) labeldata with
          | error failure =>
              rw [name, atoms] at parsed
              cases parsed
          | ok atoms' =>
              rw [name, atoms] at parsed
              cases parsed
              exact .label labels _
  | none =>
      rcases List.eq_nil_or_concat labels with rfl | ⟨front, last, rfl⟩
      · cases parsed
      · rw [List.concat_eq_append] at parsed ⊢
        rw [configParseLabel, List.getLast?_concat] at parsed
        cases atoms : labelAtoms (labeldata.length + 1) labeldata with
        | error failure =>
            rw [atoms] at parsed
            cases parsed
        | ok atoms' =>
            rw [atoms, List.dropLast_concat] at parsed
            cases parsed
            exact .atoms front last _

theorem parseData_extends {data : List Char} {labels after : List Label}
    (parsed : parseData data labels = .ok after) : Extends labels after := by
  rw [parseData] at parsed
  split at parsed
  · cases parsed
    exact .refl labels
  split at parsed
  · split at parsed
    · cases parsed
    split at parsed
    · cases parsed
      exact .refl labels
    · exact configParseLabel_extends parsed
  · split at parsed
    · cases parsed
    split at parsed
    · cases parsed
    · exact configParseLabel_extends parsed

theorem configParse_extends {rounds : Nat} {cells : List Char} {config after : Configuration}
    (parsed : configParse rounds cells config = .ok after) :
    Extends config.labels after.labels := by
  rw [configParse] at parsed
  split at parsed
  · cases parsed
  · cases parsed
  · rename_i comment left removed
    cases read : parseData (cstring left) config.labels with
    | error failure =>
        rw [read] at parsed
        cases parsed
    | ok labels =>
        rw [read] at parsed
        cases parsed
        exact parseData_extends read

theorem contentsLoop_extends {rounds : Nat} {chunks : List (List Char)}
    {config after : Configuration} (read : contentsLoop rounds chunks config = .ok after) :
    Extends config.labels after.labels := by
  induction chunks generalizing config with
  | nil =>
      cases read
      exact .refl _
  | cons chunk chunks induction =>
      rw [contentsLoop] at read
      split at read
      · cases read
        exact .refl _
      simp only at read
      split at read
      · cases read
      split at read
      · exact induction read
      · revert read
        cases line : configParse rounds _ config with
        | error failure => exact nofun
        | ok between => exact fun read => (configParse_extends line).trans (induction read)

/-! ## Reading that ends -/

theorem Finished.reported {Value : Type} {failure : Failure}
    (finished : Finished (.error failure : Reading Value)) :
    failure ≠ .unfinished ∧ failure ≠ .fault := finished failure rfl

/-- The buffer of a chunk, and the line that `config_contents` makes of it. -/
def chunkCells (chunk : List Char) : List Char :=
  storeChunk (List.replicate configMaxLine nul) chunk

def chunkLine (chunk : List Char) : List Char :=
  (cstring (chunkCells chunk)).takeWhile fun char => !lineEnd char

/-- The comments of the line are taken out inside the buffer. -/
def Contained (comment : Bool) (chunk : List Char) : Prop :=
  scanLine (decide ('*' ∈ cstring ((chunkCells chunk).drop ((chunkLine chunk).length + 1)))) comment
    (chunkLine chunk) ≠ none

instance (comment : Bool) (chunk : List Char) : Decidable (Contained comment chunk) :=
  inferInstanceAs (Decidable (_ ≠ none))

/-- The rounds that this takes at most. -/
def lineRounds : Nat := 2 * configMaxLine

/-- The condition holds for every line that is read, with the comment that it is read in. -/
def LinesContained : List (List Char) → Configuration → Prop
  | [], _ => True
  | chunk :: chunks, config =>
      if atEof chunk then True
      else if (chunkLine chunk).length = (cstring (chunkCells chunk)).length then True
      else if chunkLine chunk = [] then LinesContained chunks config
      else Contained config.comment chunk ∧
        ∀ after ∈ (configParse lineRounds
          ((chunkCells chunk).set (chunkLine chunk).length nul) config).toOption,
            LinesContained chunks after

def decideLinesContained : (chunks : List (List Char)) → (config : Configuration) →
    Decidable (LinesContained chunks config)
  | [], _ => inferInstanceAs (Decidable True)
  | chunk :: chunks, _ =>
      have := decideLinesContained chunks
      inferInstanceAs (Decidable (if atEof chunk then True else _))

instance (chunks : List (List Char)) (config : Configuration) :
    Decidable (LinesContained chunks config) := decideLinesContained chunks config

/-- The string in the buffer is a front part of the chunk. -/
theorem cstring_of_chunk (cells chunk : List Char) :
    ∃ text tail after, chunk = text ++ tail ∧ storeChunk cells chunk = text ++ nul :: after ∧
      Free nul text := by
  rcases free_or_eq_append_cons nul chunk with free | ⟨text, tail, free, rfl⟩
  · exact ⟨chunk, [], _, (List.append_nil _).symm, rfl, free⟩
  · refine ⟨text, nul :: tail, tail ++ nul :: cells.drop ((text ++ nul :: tail).length + 1), rfl,
      ?_, free⟩
    rw [storeChunk, List.append_assoc]
    rfl

/-- The buffer of a line, as `config_parse` gets it. -/
theorem exists_line {chunk : List Char} (short : chunk.length + 1 < configMaxLine)
    (more : (chunkLine chunk).length ≠ (cstring (chunkCells chunk)).length) :
    ∃ line : Line, line.cells = (chunkCells chunk).set (chunkLine chunk).length nul ∧
      line.text = chunkLine chunk ∧
      line.behind = (chunkCells chunk).drop ((chunkLine chunk).length + 1) := by
  have size : (chunkCells chunk).length = configMaxLine := by
    rw [chunkCells, length_storeChunk (by rw [List.length_replicate]; omega), List.length_replicate]
  rcases cstring_of_chunk (List.replicate configMaxLine nul) chunk with
    ⟨text, tail, after, rfl, stored, free⟩
  have cells : chunkCells (text ++ tail) = text ++ nul :: after := stored
  have split := List.takeWhile_append_dropWhile (p := fun char => !lineEnd char) (l := text)
  rw [cells] at size
  rw [chunkLine, cells, cstring_append_nul free] at more ⊢
  cases rest : text.dropWhile fun char => !lineEnd char with
  | nil =>
      rw [rest, List.append_nil] at split
      exact absurd (congrArg List.length split) more
  | cons ends rest' =>
      rw [rest] at split
      generalize text.takeWhile (fun char => !lineEnd char) = line at split more ⊢
      subst split
      have parts := free
      rw [free_append, free_cons] at parts
      have drop : (line ++ ends :: rest' ++ nul :: after).drop (line.length + 1) =
          rest' ++ nul :: after := by
        rw [List.append_assoc, ← List.drop_drop, List.drop_left]
        rfl
      rw [drop]
      refine ⟨⟨line, rest' ++ nul :: after, parts.1, by simp, ?_⟩, ?_, rfl, rfl⟩
      · simp only [List.length_append, List.length_cons] at size ⊢
        omega
      · change line ++ nul :: (rest' ++ nul :: after) =
          (line ++ ends :: rest' ++ nul :: after).set line.length nul
        rw [List.append_assoc, List.set_append_right _ _ (Nat.le_refl _), Nat.sub_self]
        rfl

/-- The configurations that the loop of `config_read` comes to. -/
inductive Comes (set : FileSet) (filename : List Char) : Configuration → Prop
  | first {config : Configuration}
      (read : configBeginRead lineRounds set filename configAlloc = .ok config) :
      Comes set filename config
  | next {config after : Configuration} (comes : Comes set filename config)
      (parsed : configParseIncludes lineRounds set config = .ok (some after)) :
      Comes set filename after

theorem readPath_extends {rounds : Nat} {set : FileSet} {path : Option (List Char)}
    {config after : Configuration} (read : readPath rounds set path config = .ok after) :
    Extends config.labels after.labels := by
  rw [readPath] at read
  split at read
  · cases read
  · exact contentsLoop_extends read

/-- One round of `config_read`: a file is taken off the pending ones, and what it includes is
put behind the others. -/
theorem configParseIncludes_eq {rounds : Nat} {set : FileSet} {config : Configuration}
    {data : List Char} {rest : List (List Char)} (next : pending config.labels = data :: rest) :
    (∃ failure, readPath rounds set (configFullpath set.cwd data) config = .error failure ∧
      configParseIncludes rounds set config = .error failure) ∨
    ∃ after left added, readPath rounds set (configFullpath set.cwd data) config = .ok after ∧
      pending after.labels = pending config.labels ++ added ∧
      configParseIncludes rounds set config = .ok (some left) ∧
      pending left.labels = rest ++ added ∧ left.comment = after.comment := by
  cases found : firstInclude config.labels with
  | none =>
      rw [pending_of_firstInclude_none found] at next
      cases next
  | some place =>
      rcases place with ⟨i, j, text⟩
      have same := pending_of_firstInclude found
      rw [next] at same
      cases same
      cases read : readPath rounds set (configFullpath set.cwd data) config with
      | error failure =>
          refine .inl ⟨failure, rfl, ?_⟩
          rw [configParseIncludes, found]
          simp only [configBeginRead, read]
          rfl
      | ok after =>
          have extension := readPath_extends read
          rcases extension.pending_eq with ⟨added, grown⟩
          have later := pending_of_firstInclude (extension.firstInclude_eq found)
          refine .inr ⟨after, { after with labels := ignoreAt i j after.labels }, added, rfl,
            grown, ?_, ?_, rfl⟩
          · rw [configParseIncludes, found]
            simp only [configBeginRead, read]
            rfl
          · rw [grown, next, List.cons_append] at later
            exact (List.cons.inj later).2.symm

section

variable {set : FileSet} {filename : List Char}

theorem Comes.begun {config : Configuration} (comes : Comes set filename config) :
    ∃ first, configBeginRead lineRounds set filename configAlloc = .ok first := by
  induction comes with
  | first read => exact ⟨_, read⟩
  | next _ _ induction => exact induction

end

/-! ## Files that stand alone -/

/-- What is read from a file does not depend on the labels that were read before, and ends
outside comments. -/
def Standalone (set : FileSet) (included : Option (List Char) → Option (List (Option (List Char)))) :
    Prop :=
  ∀ path labels,
    match included path with
    | none => ∃ rounds failure, readPath rounds set path ⟨false, labels⟩ = .error failure ∧
        failure ≠ .unfinished ∧ failure ≠ .fault
    | some paths => ∃ rounds after added, readPath rounds set path ⟨false, labels⟩ = .ok after ∧
        after.comment = false ∧ pending after.labels = pending labels ++ added ∧
        added.map (configFullpath set.cwd) = paths

section

variable {set : FileSet} {included : Option (List Char) → Option (List (Option (List Char)))}

theorem Standalone.error (standalone : Standalone set included) {path : Option (List Char)}
    (fails : included path = none) (labels : List Label) :
    ∃ rounds failure, readPath rounds set path ⟨false, labels⟩ = .error failure ∧
      failure ≠ .unfinished ∧ failure ≠ .fault := by
  have read := standalone path labels
  rw [fails] at read
  exact read

theorem Standalone.ok (standalone : Standalone set included) {path : Option (List Char)}
    {paths : List (Option (List Char))} (reads : included path = some paths)
    (labels : List Label) :
    ∃ rounds after added, readPath rounds set path ⟨false, labels⟩ = .ok after ∧
      after.comment = false ∧ pending after.labels = pending labels ++ added ∧
      added.map (configFullpath set.cwd) = paths := by
  have read := standalone path labels
  rw [reads] at read
  exact read

/-- A round with a file that can be read. -/
theorem Standalone.round (standalone : Standalone set included) {config : Configuration}
    (outside : config.comment = false) {data : List Char} {rest : List (List Char)}
    (next : pending config.labels = data :: rest) {paths : List (Option (List Char))}
    (reads : included (configFullpath set.cwd data) = some paths) :
    ∃ rounds left, configParseIncludes rounds set config = .ok (some left) ∧
      left.comment = false ∧
      (pending left.labels).map (configFullpath set.cwd) =
        rest.map (configFullpath set.cwd) ++ paths := by
  rcases standalone.ok reads config.labels with ⟨rounds, after, added, read, ended, grown, names⟩
  have same : (⟨false, config.labels⟩ : Configuration) = config := by rw [← outside]
  rw [same] at read
  rcases configParseIncludes_eq next with
    ⟨failure, failed, -⟩ | ⟨after', left, added', read', grown', parsed, pendingLeft, comment⟩
  · cases read.symm.trans failed
  · cases read.symm.trans read'
    have equal : added' = added := List.append_cancel_left (grown'.symm.trans grown)
    refine ⟨rounds, left, parsed, comment.trans ended, ?_⟩
    rw [pendingLeft, List.map_append, equal, names]

/-- A file that is reached from the first one. -/
def Reached (included : Option (List Char) → Option (List (Option (List Char)))) (set : FileSet)
    (filename : List Char) (path : Option (List Char)) : Prop :=
  ReflTransGen (Worklist.LeadsTo included) path (configFullpath set.cwd filename)

end

/-! ## A file that only seems to include itself -/

end Vpopmail.Config

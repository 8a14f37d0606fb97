import Vpopmail.Config.Comments
import Vpopmail.Names

/-! # Reading configuration files

`config_contents` reads a file line by line and hands the lines to `config_parse`, which
appends labels and atoms to the configuration. `config_fetch_by_name` looks a value up.
-/

namespace Vpopmail.Config

open Text Vpopmail.Stream Buffer

/-- `config_atom_t`, with the flag `CAF_IGNORE`. -/
structure Atom where
  name : Option (List Char)
  data : List Char
  ignore : Bool
  deriving DecidableEq

/-- `config_label_t`. -/
structure Label where
  name : List Char
  atoms : List Atom
  deriving DecidableEq

/-- `config_t`, with the flag `CF_COMMENT`. The last label is `ltail`. -/
structure Configuration where
  comment : Bool
  labels : List Label
  deriving DecidableEq

def configAlloc : Configuration := ⟨false, []⟩

inductive SyntaxError
  | lineTooLong
  | wrappingWithoutLabel
  | invalidLabelDeclaration
  | emptyLabelName
  | noTerminatingSemicolon
  | emptyAtomName
  | unterminatedLiteral
  deriving DecidableEq

/-- Why a function does not return 1: it is not done after the given rounds, it leaves a buffer
or reads what has been freed, it cannot open a file, or it finds an error in one. -/
inductive Failure
  | unfinished
  | fault
  | unreadable
  | rejected (error : SyntaxError)
  deriving DecidableEq

abbrev Reading := Except Failure

def reject {Value : Type} (error : SyntaxError) : Reading Value := .error (.rejected error)

def blank (char : Char) : Bool := char = ' ' || char = '\t'

def skipBlanks (text : List Char) : List Char := text.dropWhile blank

/-- `config_convert_literal`, whose failure fails the caller. -/
def convert (str : List Char) : Reading (List Char) :=
  match configConvertLiteral str with
  | none => reject .unterminatedLiteral
  | some text => .ok text

/-! ## Labels and atoms -/

/-- `config_parse_label_atom`: the atom to append, if there is one. -/
def configParseLabelAtom (data : List Char) : Reading (Option Atom) :=
  match configNextToken data '=' with
  | some p =>
      let aname := (data.take p).rdropWhile blank
      let adata := skipBlanks (data.drop (p + 1))
      if aname = [] then reject .emptyAtomName
      else
        (convert aname).bind fun name =>
          (if adata = [] then .ok [] else convert adata).bind fun value =>
            .ok (if value = [] ∧ name = [] then none else some ⟨some name, value, false⟩)
  | none =>
      (if data = [] then .ok [] else convert data).bind fun value =>
        .ok (if value = [] then none else some ⟨none, value, false⟩)

/-- The loop of `config_parse_label` over the label data. Every round takes a semicolon. -/
def labelAtoms : (rounds : Nat) → (labeldata : List Char) → Reading (List Atom)
  | 0, _ => .error .unfinished
  | rounds + 1, labeldata =>
      match configNextToken labeldata ';' with
      | none => if labeldata.all blank then .ok [] else reject .noTerminatingSemicolon
      | some p =>
          (configParseLabelAtom (skipBlanks (labeldata.take p))).bind fun atom =>
            (labelAtoms rounds (labeldata.drop (p + 1))).map fun atoms => atom.toList ++ atoms

/-- `config_parse_label`. Without a new label the atoms go to the last one. -/
def configParseLabel (newlabel : Option (List Char)) (labeldata : List Char)
    (labels : List Label) : Reading (List Label) :=
  match newlabel with
  | some newlabel =>
      (convert newlabel).bind fun name =>
        (labelAtoms (labeldata.length + 1) labeldata).map fun atoms => labels ++ [⟨name, atoms⟩]
  | none =>
      match labels.getLast? with
      | none => reject .wrappingWithoutLabel
      | some label =>
          (labelAtoms (labeldata.length + 1) labeldata).map fun atoms =>
            labels.dropLast ++ [{ label with atoms := label.atoms ++ atoms }]

/-! ## Lines -/

/-- What is left of a line after `config_remove_comments` is parsed. -/
def parseData (data : List Char) (labels : List Label) : Reading (List Label) :=
  if data = [] then .ok labels
  else if data.head?.any blank then
    if labels = [] then reject .wrappingWithoutLabel
    else if skipBlanks data = [] then .ok labels
    else configParseLabel none (skipBlanks data) labels
  else
    match configNextToken data ':' with
    | none => reject .invalidLabelDeclaration
    | some p =>
        if data.take p = [] then reject .emptyLabelName
        else configParseLabel (some (data.take p)) (skipBlanks (data.drop (p + 1))) labels

/-- `config_parse`, on the cells of the line. -/
def configParse (rounds : Nat) (cells : List Char) (config : Configuration) :
    Reading Configuration :=
  match configRemoveComments rounds config.comment cells with
  | none => .error .unfinished
  | some (.error _) => .error .fault
  | some (.ok (comment, cells)) =>
      (parseData (cstring cells) config.labels).map fun labels => ⟨comment, labels⟩

def lineEnd (char : Char) : Bool := char = '\n' || char = '\r'

/-- `feof` behind the `fgets` of a chunk: the end of the file came before a newline did and
before the buffer was full. -/
def atEof (chunk : List Char) : Bool :=
  decide (chunk.length < configMaxLine - 2) && chunk.getLast? ≠ some '\n'

/-- The loop of `config_contents` over what `fgets` reads. -/
def contentsLoop (rounds : Nat) : List (List Char) → Configuration → Reading Configuration
  | [], config => .ok config
  | chunk :: chunks, config =>
      if atEof chunk then .ok config
      else
        let cells := storeChunk (List.replicate configMaxLine nul) chunk
        let line := (cstring cells).takeWhile fun char => !lineEnd char
        if line.length = (cstring cells).length then reject .lineTooLong
        else if line = [] then contentsLoop rounds chunks config
        else (configParse rounds (cells.set line.length nul) config).bind
          (contentsLoop rounds chunks)

/-- `config_contents`. -/
def configContents (rounds : Nat) (stream : List Char) (config : Configuration) :
    Reading Configuration :=
  contentsLoop rounds (fgetsLoop (configMaxLine - 1) stream) config

/-! ## Looking up -/

/-- `config_fetch_by_name`. -/
def configFetchByName (config : Configuration) (label aname : List Char) : Option (List Char) :=
  config.labels.findSome? fun entry =>
    if sameText entry.name label then
      (entry.atoms.find? fun atom => atom.name.any fun name => sameText name aname).map Atom.data
    else none

end Vpopmail.Config

import Vpopmail.Config.Parsing

/-! # Writing configurations and reading them back

A configuration is rendered with one label on each line and a backslash in front of every
character that means something to the parser. Reading it gives the same labels, as long as
the lines fit the buffer and the last line ends in a newline.
-/

namespace Vpopmail.Config

open Text Vpopmail.Stream Buffer

/-- A text that can stand on a line. -/
def LineText (text : List Char) : Prop :=
  ∀ char ∈ text, char ≠ nul ∧ lineEnd char = false

instance (text : List Char) : Decidable (LineText text) :=
  List.decidableBAll (fun char => char ≠ nul ∧ lineEnd char = false) text

/-- A name and its value. -/
structure Pair where
  name : List Char
  value : List Char
  named : name ≠ []
  unblank : ∀ char ∈ name, blank char = false
  nameText : LineText name
  valueText : LineText value

/-- A label and its pairs. -/
structure Entry where
  name : List Char
  pairs : List Pair
  named : name ≠ []
  nameText : LineText name

/-! ## Rendering -/

def Pair.render (pair : Pair) : List Char :=
  escaped pair.name ++ '=' :: (escaped pair.value ++ [';'])

/-- The pairs behind a label, each with a blank in front. -/
def renderPairs (pairs : List Pair) : List Char :=
  (pairs.map fun pair => ' ' :: pair.render).flatten

def Entry.render (entry : Entry) : List Char :=
  escaped entry.name ++ ':' :: renderPairs entry.pairs

/-- A file with one label on each line. -/
def render (entries : List Entry) (finalNewline : Bool) : List Char :=
  let text := (entries.map fun entry => entry.render ++ ['\n']).flatten
  if finalNewline then text else text.dropLast

/-- The value of the first pair that matches without regard to case. -/
def firstValue (entries : List Entry) (label aname : List Char) : Option (List Char) :=
  ((entries.flatMap fun entry => entry.pairs.map fun pair => (entry.name, pair)).find?
    fun (name, pair) => sameText name label && sameText pair.name aname).map
      fun (_, pair) => pair.value

/-! ## What is read from a line -/

def Pair.atom (pair : Pair) : Atom := ⟨some pair.name, pair.value, false⟩

def Entry.label (entry : Entry) : Label := ⟨entry.name, entry.pairs.map Pair.atom⟩

theorem LineText.free {text : List Char} (holds : LineText text) : Free nul text :=
  fun member => (holds nul member).1 rfl

theorem mem_escaped {char : Char} {text : List Char} (member : char ∈ escaped text) :
    char = '\\' ∨ char ∈ text := by
  induction text with
  | nil => cases member
  | cons head text induction =>
      rw [escaped] at member
      split at member
      · simp only [List.mem_cons] at member ⊢
        rcases member with slash | same | member
        · exact .inl slash
        · exact .inr (.inl same)
        · exact (induction member).imp_right .inr
      · simp only [List.mem_cons] at member ⊢
        rcases member with same | member
        · exact .inr (.inl same)
        · exact (induction member).imp_right .inr

theorem LineText.escaped {text : List Char} (holds : LineText text) :
    LineText (escaped text) := by
  intro char member
  rcases mem_escaped member with rfl | member
  · exact ⟨by decide, by decide⟩
  · exact holds char member

theorem escaped_ne_nil {text : List Char} (nonempty : text ≠ []) : escaped text ≠ [] := by
  cases text with
  | nil => exact absurd rfl nonempty
  | cons char text =>
      rw [Config.escaped]
      split
      · exact List.cons_ne_nil _ _
      · exact List.cons_ne_nil _ _

/-- Blanks are escaped, so none is at the start. -/
theorem head_escaped (text : List Char) {rest : List Char}
    (shown : rest.head?.any blank = false) : (escaped text ++ rest).head?.any blank = false := by
  cases text with
  | nil => exact shown
  | cons char text =>
      rw [escaped]
      by_cases marked : special char = true
      · rw [if_pos marked]
        rfl
      · have other : blank char = false := by
          simp only [special, List.mem_cons, decide_eq_true_eq, not_or] at marked
          simp [blank, marked]
        rw [if_neg marked]
        exact other

theorem skipBlanks_of_head {text : List Char} (shown : text.head?.any blank = false) :
    skipBlanks text = text := by
  cases text with
  | nil => rfl
  | cons char text =>
      have other : blank char = false := shown
      simp [skipBlanks, other]

theorem rdropWhile_escaped {text : List Char} (unblank : ∀ char ∈ text, blank char = false) :
    (escaped text).rdropWhile blank = escaped text := by
  rw [List.rdropWhile_eq_self_iff]
  intro nonempty
  rcases mem_escaped (List.getLast_mem nonempty) with slash | member
  · rw [slash]
    decide
  · rw [unblank _ member]
    exact Bool.false_ne_true

theorem convert_escaped {text : List Char} (free : Free nul text) :
    convert (escaped text) = .ok text := by
  rw [convert, configConvertLiteral_escaped free]

theorem configParseLabelAtom_render (pair : Pair) :
    configParseLabelAtom (escaped pair.name ++ '=' :: escaped pair.value) =
      .ok (some pair.atom) := by
  have found := configNextToken_append (clean_escaped (by decide) pair.name)
    (by decide : '=' ∉ ['\\', '"']) (escaped pair.value)
  have adata : skipBlanks (escaped pair.value) = escaped pair.value := by
    have shown : ([] : List Char).head?.any blank = false := rfl
    have same := skipBlanks_of_head (head_escaped pair.value shown)
    rwa [List.append_nil] at same
  have value : (if escaped pair.value = [] then Except.ok [] else convert (escaped pair.value)) =
      .ok pair.value := by
    split
    · next empty =>
        by_cases nonempty : pair.value = []
        · rw [nonempty]
        · exact absurd empty (escaped_ne_nil nonempty)
    · exact convert_escaped pair.valueText.free
  have behind : (escaped pair.name ++ '=' :: escaped pair.value).drop
      ((escaped pair.name).length + 1) = escaped pair.value := by
    rw [List.drop_append]
    simp
  rw [configParseLabelAtom, found]
  simp only [List.take_left, behind, rdropWhile_escaped pair.unblank, adata,
    if_neg (escaped_ne_nil pair.named), convert_escaped pair.nameText.free, value]
  change Except.ok _ = _
  rw [if_neg (fun empty => pair.named empty.2)]
  rfl

/-- One round of the loop takes one pair, with the blanks in front of it. -/
theorem labelAtoms_render {lead : List Char} (blanks : ∀ char ∈ lead, blank char = true)
    (clean : Clean ';' lead) (pair : Pair) (rounds : Nat) (rest : List Char) :
    labelAtoms (rounds + 1) (lead ++ pair.render ++ rest) =
      (labelAtoms rounds rest).map fun atoms => pair.atom :: atoms := by
  have semicolon : special ';' = true := by decide
  have equals : Clean ';' ['='] := clean_singleton (by decide) (by decide) (by decide)
  have cleanPair := clean_append (clean_append clean (clean_escaped semicolon pair.name))
    (clean_append equals (clean_escaped semicolon pair.value))
  have parts : lead ++ pair.render ++ rest =
      (lead ++ escaped pair.name ++ (['='] ++ escaped pair.value)) ++ ';' :: rest := by
    simp only [Pair.render, List.append_assoc, List.cons_append, List.nil_append]
  have found := configNextToken_append cleanPair (by decide) rest
  rw [← parts] at found
  have text : skipBlanks (lead ++ escaped pair.name ++ (['='] ++ escaped pair.value)) =
      escaped pair.name ++ '=' :: escaped pair.value := by
    rw [skipBlanks, List.append_assoc, List.dropWhile_append_of_pos blanks]
    exact skipBlanks_of_head (head_escaped pair.name rfl)
  rw [labelAtoms, found]
  simp only [parts, List.take_left, text, configParseLabelAtom_render]
  have behind : ((lead ++ escaped pair.name ++ (['='] ++ escaped pair.value)) ++ ';' :: rest).drop
      ((lead ++ escaped pair.name ++ (['='] ++ escaped pair.value)).length + 1) = rest := by
    rw [← List.drop_drop, List.drop_left]
    rfl
  rw [behind]
  rfl

theorem labelAtoms_renderPairs {pairs : List Pair} {rounds : Nat} (enough : pairs.length < rounds) :
    labelAtoms rounds (renderPairs pairs) = .ok (pairs.map Pair.atom) := by
  induction pairs generalizing rounds with
  | nil =>
      cases rounds with
      | zero => cases enough
      | succ rounds => rfl
  | cons pair pairs induction =>
      cases rounds with
      | zero => cases enough
      | succ rounds =>
          have lead : Clean ';' [' '] := clean_singleton (by decide) (by decide) (by decide)
          have step := labelAtoms_render (by simp [blank]) lead pair rounds (renderPairs pairs)
          rw [induction (Nat.lt_of_succ_lt_succ enough)] at step
          exact step

theorem length_le_renderPairs (pairs : List Pair) : pairs.length ≤ (renderPairs pairs).length := by
  have nonempty : ∀ line ∈ pairs.map fun pair => ' ' :: pair.render, line ≠ [] := by
    intro line member
    rcases List.mem_map.mp member with ⟨pair, _, rfl⟩
    exact nofun
  have lengths := length_le_length_flatten nonempty
  rwa [List.length_map] at lengths

/-- The label data, without the blank in front. -/
theorem labelAtoms_skipBlanks (pairs : List Pair) :
    labelAtoms ((skipBlanks (renderPairs pairs)).length + 1) (skipBlanks (renderPairs pairs)) =
      .ok (pairs.map Pair.atom) := by
  cases pairs with
  | nil => rfl
  | cons pair pairs =>
      have text : skipBlanks (renderPairs (pair :: pairs)) =
          [] ++ pair.render ++ renderPairs pairs := by
        have first : renderPairs (pair :: pairs) =
            ' ' :: (escaped pair.name ++ ('=' :: (escaped pair.value ++ [';']) ++
              renderPairs pairs)) := by
          simp [renderPairs, Pair.render]
        rw [first]
        change skipBlanks (escaped pair.name ++ _) = _
        rw [skipBlanks_of_head (head_escaped pair.name rfl)]
        simp [Pair.render]
      have room := length_le_renderPairs pairs
      have longer : pairs.length < ([] ++ pair.render ++ renderPairs pairs).length := by
        simp only [Pair.render, List.length_append, List.length_cons]
        omega
      rw [text, labelAtoms_render (List.forall_mem_nil _) (clean_nil ';'),
        labelAtoms_renderPairs longer]
      rfl

/-- A rendered line adds its label. -/
theorem parseData_render (entry : Entry) (labels : List Label) :
    parseData entry.render labels = .ok (labels ++ [entry.label]) := by
  have colon : special ':' = true := by decide
  have found := configNextToken_append (clean_escaped colon entry.name) (by decide)
    (renderPairs entry.pairs)
  have nonempty := escaped_ne_nil entry.named
  have behind : entry.render.drop ((escaped entry.name).length + 1) = renderPairs entry.pairs := by
    rw [Entry.render, ← List.drop_drop, List.drop_left]
    rfl
  have start : ¬entry.render.head?.any blank = true := by
    rw [Entry.render, head_escaped entry.name rfl]
    exact Bool.false_ne_true
  have present : entry.render ≠ [] := by simp [Entry.render]
  have front : entry.render.take (escaped entry.name).length = escaped entry.name :=
    List.take_left
  have token : configNextToken entry.render ':' = some (escaped entry.name).length := found
  rw [parseData, if_neg present, if_neg start, token]
  simp only [front, if_neg nonempty, behind, configParseLabel,
    convert_escaped entry.nameText.free]
  change (labelAtoms _ _).map _ = _
  rw [labelAtoms_skipBlanks]
  rfl

/-! ## What is read from a file -/

theorem lineText_append {left right : List Char} (first : LineText left) (second : LineText right) :
    LineText (left ++ right) := by
  intro char member
  rcases List.mem_append.mp member with member | member
  · exact first char member
  · exact second char member

theorem lineText_cons {char : Char} {text : List Char} (plain : char ≠ nul ∧ lineEnd char = false)
    (rest : LineText text) : LineText (char :: text) := by
  intro other member
  rcases List.mem_cons.mp member with rfl | member
  · exact plain
  · exact rest other member

theorem lineText_renderPairs (pairs : List Pair) : LineText (renderPairs pairs) := by
  intro char member
  rcases List.mem_flatten.mp member with ⟨text, found, member⟩
  rcases List.mem_map.mp found with ⟨pair, _, rfl⟩
  have whole : LineText (' ' :: pair.render) :=
    lineText_cons (by decide) (lineText_append pair.nameText.escaped
      (lineText_cons (by decide) (lineText_append pair.valueText.escaped
        (lineText_cons (by decide) nofun))))
  exact whole char member

namespace Entry

theorem lineText_render (entry : Entry) : LineText entry.render :=
  lineText_append entry.nameText.escaped
    (lineText_cons (by decide) (lineText_renderPairs entry.pairs))

theorem free_render (entry : Entry) : Free '\n' entry.render :=
  fun member => absurd (entry.lineText_render '\n' member).2 (by decide)

/-- No comment starts on a rendered line. -/
theorem clean_render (entry : Entry) : Clean '/' entry.render := by
  have slash : special '/' = true := by decide
  have space : Clean '/' [' '] := clean_singleton (by decide) (by decide) (by decide)
  have colon : Clean '/' [':'] := clean_singleton (by decide) (by decide) (by decide)
  have equals : Clean '/' ['='] := clean_singleton (by decide) (by decide) (by decide)
  have semicolon : Clean '/' [';'] := clean_singleton (by decide) (by decide) (by decide)
  have pairs : Clean '/' (renderPairs entry.pairs) := by
    apply clean_flatten
    intro text member
    rcases List.mem_map.mp member with ⟨pair, _, rfl⟩
    exact clean_append space (clean_append (clean_escaped slash pair.name)
      (clean_append equals (clean_append (clean_escaped slash pair.value) semicolon)))
  exact clean_append (clean_escaped slash entry.name) (clean_append colon pairs)

/-- The line fits the buffer, with its newline and two terminators. -/
def Fits (entry : Entry) : Prop := entry.render.length + 2 < configMaxLine

instance (entry : Entry) : Decidable entry.Fits :=
  inferInstanceAs (Decidable (entry.render.length + 2 < configMaxLine))

end Entry

theorem takeWhile_lineText {text : List Char} (plain : LineText text) :
    (text.takeWhile fun char => !lineEnd char) = text := by
  rw [List.takeWhile_eq_self_iff]
  intro char member
  rw [(plain char member).2]
  rfl

/-- The buffer of a line that ends in a newline. -/
theorem storeChunk_line {text : List Char} (free : Free nul text)
    (fits : text.length + 2 < configMaxLine) :
    (storeChunk (List.replicate configMaxLine nul) (text ++ ['\n'])).set text.length nul =
      (Line.ofText text free (by omega)).cells := by
  have room : configMaxLine - text.length - 1 = configMaxLine - (text.length + 1 + 1) + 1 := by omega
  rw [storeChunk, List.append_assoc, List.set_append_right _ _ (Nat.le_refl _), Nat.sub_self,
    List.drop_replicate, List.length_append]
  change text ++ nul :: (nul :: List.replicate _ nul) = text ++ nul :: List.replicate _ nul
  rw [room, List.replicate_succ]
  rfl

section

variable {entry : Entry} (rounds : Nat) (labels : List Label)

/-- The step: a line that fits adds its label. -/
theorem contentsLoop_fits (fits : entry.Fits) (chunks : List (List Char)) :
    contentsLoop (rounds + 1) ((entry.render ++ ['\n']) :: chunks) ⟨false, labels⟩ =
      contentsLoop (rounds + 1) chunks ⟨false, labels ++ [entry.label]⟩ := by
  have goesOn : ¬atEof (entry.render ++ ['\n']) = true := by simp [atEof]
  have free := entry.lineText_render.free
  have chunkFree : Free nul (entry.render ++ ['\n']) := by
    rw [free_append]
    exact ⟨free, by decide⟩
  have whole := cstring_storeChunk chunkFree (List.replicate configMaxLine nul)
  have line : ((entry.render ++ ['\n']).takeWhile fun char => !lineEnd char) = entry.render := by
    rw [List.takeWhile_append_of_pos]
    · simp [lineEnd]
    · intro char member
      rw [(entry.lineText_render char member).2]
      rfl
  have ended : ¬entry.render.length = (entry.render ++ ['\n']).length := by simp
  have present : entry.render ≠ [] := by simp [Entry.render]
  have absent : configNextToken entry.render '/' = none := by
    have same := entry.clean_render []
    rwa [List.append_nil] at same
  have removed : configRemoveComments (rounds + 1) false
      (Line.ofText entry.render free (Nat.lt_of_succ_lt fits)).cells = _ :=
    configRemoveComments_of_none absent rounds
  rw [contentsLoop, if_neg goesOn]
  simp only [whole, line, if_neg ended, if_neg present, storeChunk_line free fits, configParse,
    removed, cstring_line]
  change ((parseData entry.render labels).map _).bind _ = _
  rw [parseData_render]
  rfl

/-- Without a newline the last line is left out. -/
theorem contentsLoop_last (fits : entry.Fits) (config : Configuration) :
    contentsLoop rounds [entry.render] config = .ok config := by
  have ended : atEof entry.render = true := by
    rw [atEof, Bool.and_eq_true, decide_eq_true_eq, decide_eq_true_eq]
    constructor
    · rw [Entry.Fits] at fits
      omega
    · intro newline
      exact entry.free_render (List.mem_of_getLast? newline)
  rw [contentsLoop, if_pos ended]

/-- A line that does not fit is rejected. -/
theorem contentsLoop_long (long : ¬entry.Fits) (chunks : List (List Char))
    (config : Configuration) :
    contentsLoop rounds (entry.render.take (configMaxLine - 2) :: chunks) config =
      reject .lineTooLong := by
  have size : (entry.render.take (configMaxLine - 2)).length = configMaxLine - 2 := by
    rw [Entry.Fits] at long
    rw [List.length_take]
    omega
  have goesOn : ¬atEof (entry.render.take (configMaxLine - 2)) = true := by
    simp [atEof, size]
  have plain : LineText (entry.render.take (configMaxLine - 2)) :=
    fun char member => entry.lineText_render char (List.mem_of_mem_take member)
  rw [contentsLoop, if_neg goesOn]
  simp only [cstring_storeChunk plain.free, takeWhile_lineText plain, if_pos]

/-- Lines that all fit are read, and the first one that does not is rejected. -/
theorem configContents_append (entries : List Entry) (stream : List Char) :
    configContents (rounds + 1) ((entries.map fun entry => entry.render ++ ['\n']).flatten ++ stream)
        ⟨false, labels⟩ =
      if ∀ entry ∈ entries, entry.Fits then
        configContents (rounds + 1) stream ⟨false, labels ++ entries.map Entry.label⟩
      else reject .lineTooLong := by
  have room : 1 < configMaxLine - 1 := by decide
  induction entries generalizing labels with
  | nil => simp
  | cons entry entries induction =>
      by_cases fits : entry.Fits
      · have isLine : IsLine (entry.render ++ ['\n']) := isLine_append_newline entry.free_render
        have short : (entry.render ++ ['\n']).length < configMaxLine - 1 := by
          rw [Entry.Fits] at fits
          simp only [List.length_append, List.length_singleton]
          omega
        have step := contentsLoop_fits rounds labels fits (fgetsLoop (configMaxLine - 1)
          ((entries.map fun entry => entry.render ++ ['\n']).flatten ++ stream))
        rw [List.map_cons, List.flatten_cons, List.append_assoc, configContents,
          fgetsLoop_eq room (fgets_line isLine short _), step]
        have others := induction (labels ++ [entry.label])
        rw [configContents] at others
        rw [others]
        simp only [List.forall_mem_cons, fits, true_and, List.map_cons, List.append_assoc,
          List.singleton_append]
      · have long : configMaxLine - 1 - 1 ≤ entry.render.length := by
          rw [Entry.Fits] at fits
          omega
        rw [List.map_cons, List.flatten_cons, List.append_assoc, List.append_assoc, configContents,
          fgetsLoop_long room entry.free_render long]
        have rejected := contentsLoop_long (rounds + 1) fits
        rw [if_neg fun all => fits (all entry List.mem_cons_self)]
        exact rejected _ _

/-- A last line without its newline is left out, or rejected. -/
theorem configContents_last (entry : Entry) :
    configContents (rounds + 1) entry.render ⟨false, labels⟩ =
      if entry.Fits then .ok ⟨false, labels⟩ else reject .lineTooLong := by
  have room : 1 < configMaxLine - 1 := by decide
  have whole : entry.render ++ [] = entry.render := List.append_nil _
  by_cases fits : entry.Fits
  · have short : entry.render.length < configMaxLine - 1 - 1 := by
      rw [Entry.Fits] at fits
      omega
    have present : entry.render ++ [] ≠ [] := by simp [Entry.render]
    rw [if_pos fits, ← whole, configContents,
      fgetsLoop_short room entry.free_render short (.inl rfl) present, whole]
    exact contentsLoop_last (rounds + 1) fits _
  · have long : configMaxLine - 1 - 1 ≤ entry.render.length := by
      rw [Entry.Fits] at fits
      omega
    rw [if_neg fits, ← whole, configContents, fgetsLoop_long room entry.free_render long]
    exact contentsLoop_long (rounds + 1) fits _ _

end

/-- What `config_contents` makes of a rendered file. -/
theorem configContents_render (rounds : Nat) (entries : List Entry) (finalNewline : Bool) :
    configContents (rounds + 1) (render entries finalNewline) configAlloc =
      if ∀ entry ∈ entries, entry.Fits then
        .ok ⟨false, (if finalNewline then entries else entries.dropLast).map Entry.label⟩
      else reject .lineTooLong := by
  cases finalNewline with
  | true =>
      have read := configContents_append rounds [] entries []
      rw [List.append_nil] at read
      exact read
  | false =>
      rcases List.eq_nil_or_concat entries with rfl | ⟨front, last, rfl⟩
      · rfl
      · have text : render (front ++ [last]) false =
            (front.map fun entry => entry.render ++ ['\n']).flatten ++ last.render := by
          simp only [render, List.map_append, List.map_cons, List.map_nil, List.flatten_append,
            List.flatten_cons, List.flatten_nil, List.append_nil]
          rw [← List.append_assoc]
          exact List.dropLast_concat
        have read := configContents_append rounds [] front last.render
        rw [configContents_last] at read
        rw [List.concat_eq_append, text, configAlloc, read]
        simp only [List.forall_mem_append, List.forall_mem_singleton, List.dropLast_concat,
          List.nil_append]
        by_cases fits : ∀ entry ∈ front, entry.Fits
        · by_cases lastFits : last.Fits
          · simp [lastFits]
          · simp [lastFits]
        · simp [fits]

/-! ## Looking up -/

theorem firstValue_append (front back : List Entry) (label aname : List Char) :
    firstValue (front ++ back) label aname =
      (firstValue front label aname).or (firstValue back label aname) := by
  rw [firstValue, List.flatMap_append, List.find?_append, Option.map_or]
  rfl

/-- The value in one label. -/
theorem firstValue_singleton (entry : Entry) (label aname : List Char) :
    firstValue [entry] label aname =
      if sameText entry.name label then
        (entry.pairs.find? fun pair => sameText pair.name aname).map Pair.value
      else none := by
  rw [firstValue, List.flatMap_singleton, List.find?_map, Option.map_map]
  by_cases same : sameText entry.name label = true
  · have matched : ((fun (found : List Char × Pair) =>
        sameText found.1 label && sameText found.2.name aname) ∘ fun pair => (entry.name, pair)) =
          fun pair => sameText pair.name aname := by
      funext pair
      simp [same]
    rw [if_pos same, ← matched]
    rfl
  · rw [if_neg same, List.find?_eq_none.mpr]
    · rfl
    · intro pair _
      simp [same]

/-- The lookup finds the first value of the labels that were read. -/
theorem configFetchByName_labels (comment : Bool) (entries : List Entry)
    (label aname : List Char) :
    configFetchByName ⟨comment, entries.map Entry.label⟩ label aname =
      firstValue entries label aname := by
  induction entries with
  | nil => rfl
  | cons entry entries induction =>
      have first : (if sameText entry.label.name label then
          (entry.label.atoms.find? fun atom => atom.name.any fun name => sameText name aname).map
            Atom.data else none) = firstValue [entry] label aname := by
        rw [firstValue_singleton, Entry.label, List.find?_map, Option.map_map]
        rfl
      have split := firstValue_append [entry] entries label aname
      rw [List.singleton_append] at split
      rw [split, ← induction, configFetchByName, List.map_cons, List.findSome?_cons, first]
      cases firstValue [entry] label aname with
      | none => rfl
      | some value => rfl

/-- A value is found in the entries. -/
theorem firstValue_ne_none_iff {entries : List Entry} {label aname : List Char} :
    firstValue entries label aname ≠ none ↔
      ∃ entry ∈ entries, sameText entry.name label = true ∧
        ∃ pair ∈ entry.pairs, sameText pair.name aname = true := by
  rw [firstValue, ne_eq, Option.map_eq_none_iff, List.find?_eq_none]
  simp only [List.mem_flatMap, List.mem_map, Bool.and_eq_true, not_forall, not_not]
  constructor
  · rintro ⟨_, ⟨entry, member, pair, inside, rfl⟩, sameLabel, sameName⟩
    exact ⟨entry, member, sameLabel, pair, inside, sameName⟩
  · rintro ⟨entry, member, sameLabel, pair, inside, sameName⟩
    exact ⟨(entry.name, pair), ⟨entry, member, pair, inside, rfl⟩, sameLabel, sameName⟩

/-- Every pair of the last label has an earlier one that matches it without regard to case. -/
def LastShadowed (entries : List Entry) : Prop :=
  ∀ front last, entries = front ++ [last] → ∀ pair ∈ last.pairs,
    ∃ entry ∈ front, sameText entry.name last.name = true ∧
      ∃ other ∈ entry.pairs, sameText other.name pair.name = true

/-- Then, and only then, the last label is not missed. -/
theorem firstValue_dropLast_iff (entries : List Entry) :
    (∀ label aname, firstValue entries.dropLast label aname = firstValue entries label aname) ↔
      LastShadowed entries := by
  constructor
  · intro same front last parts pair member
    subst parts
    have found : firstValue (front ++ [last]) last.name pair.name ≠ none :=
      firstValue_ne_none_iff.mpr ⟨last, by simp, sameText_eq_true.mpr rfl, pair, member,
        sameText_eq_true.mpr rfl⟩
    rw [← same, List.dropLast_concat] at found
    exact firstValue_ne_none_iff.mp found
  · intro shadowed label aname
    rcases List.eq_nil_or_concat entries with rfl | ⟨front, last, parts⟩
    · rfl
    · rw [List.concat_eq_append] at parts
      rw [parts, List.dropLast_concat, firstValue_append]
      cases value : firstValue front label aname with
      | some value => rfl
      | none =>
          have absent : firstValue [last] label aname = none := by
            by_contra found
            rcases firstValue_ne_none_iff.mp found with ⟨entry, member, sameLabel, pair, inside,
              sameName⟩
            rw [List.mem_singleton] at member
            subst member
            rcases shadowed front entry parts pair inside with ⟨earlier, member, labels, other,
              within, names⟩
            rw [sameText_eq_true] at sameLabel sameName labels names
            have present : firstValue front label aname ≠ none :=
              firstValue_ne_none_iff.mpr ⟨earlier, member, sameText_eq_true.mpr (labels.trans sameLabel),
                other, within, sameText_eq_true.mpr (names.trans sameName)⟩
            exact present value
          rw [absent]
          rfl

/-! ## The round trip -/

/-- The text is accepted and every lookup gives the original value, and the conversion of a
literal writes no more than it has counted. -/
structure RoundTrips (rounds : Nat) (entries : List Entry) (finalNewline : Bool) : Prop where
  fetched : ∃ config,
    configContents rounds (render entries finalNewline) configAlloc = .ok config ∧
      ∀ label aname, configFetchByName config label aname = firstValue entries label aname
  allocated : ∀ str,
    (literalText false false false str).length ≤ literalLength false false false str

/-- A configuration is read back if its lines fit the buffer and its last line has a newline,
or has nothing that is not found before. -/
theorem config_roundTrips_iff (rounds : Nat) (entries : List Entry) (finalNewline : Bool) :
    RoundTrips (rounds + 1) entries finalNewline ↔
      (∀ entry ∈ entries, entry.Fits) ∧ (finalNewline = true ∨ LastShadowed entries) := by
  have allocated : ∀ str,
      (literalText false false false str).length ≤ literalLength false false false str :=
    fun str => Nat.le_of_eq (length_literalText false false false str)
  have read := configContents_render rounds entries finalNewline
  constructor
  · intro holds
    rcases holds.fetched with ⟨config, accepted, fetched⟩
    by_cases fits : ∀ entry ∈ entries, entry.Fits
    · rw [read, if_pos fits] at accepted
      cases accepted
      refine ⟨fits, ?_⟩
      cases finalNewline with
      | true => exact .inl rfl
      | false =>
          have same : ∀ label aname,
              firstValue entries.dropLast label aname = firstValue entries label aname := by
            intro label aname
            rw [← fetched, ← configFetchByName_labels false]
            rfl
          exact .inr ((firstValue_dropLast_iff entries).mp same)
    · rw [read, if_neg fits] at accepted
      cases accepted
  · intro meets
    rcases meets with ⟨fits, last⟩
    rw [if_pos fits] at read
    refine ⟨⟨_, read, ?_⟩, allocated⟩
    intro label aname
    rw [configFetchByName_labels]
    cases finalNewline with
    | true => rfl
    | false =>
        have shadowed : LastShadowed entries := last.resolve_left Bool.false_ne_true
        exact (firstValue_dropLast_iff entries).mpr shadowed label aname

/-- The last label of a file without a final newline is lost. -/
theorem not_config_roundTrips :
    ¬∀ entries finalNewline, (∀ entry ∈ entries, entry.render.length ≤ configMaxLine) →
      ∃ rounds, RoundTrips rounds entries finalNewline := by
  intro claimed
  let pair : Pair :=
    ⟨['n'], ['v'], by decide, List.forall_mem_singleton.mpr rfl, by decide, by decide⟩
  let entry : Entry := ⟨['l'], [pair], by decide, by decide⟩
  rcases claimed [entry] false (by decide) with ⟨rounds, holds⟩
  rcases holds.fetched with ⟨config, accepted, fetched⟩
  have lost : configContents rounds (render [entry] false) configAlloc = .ok configAlloc := by rfl
  have same : configAlloc = config := Except.ok.inj (lost.symm.trans accepted)
  have found := fetched ['l'] ['n']
  rw [← same] at found
  cases found

end Vpopmail.Config

import Vpopmail.Config.Comments

/-! # Comments that are removed exactly

What is left of the lines of a configuration file when their comments are taken out, and on which
lines `config_remove_comments` leaves that.
-/

namespace Vpopmail.Config

open Text Buffer

/-! ## Lines without comments -/

/-- A line without its comments, and whether it ends in one. -/
def uncommented : Mode → List Char → List Char × Bool
  | mode, [] => ([], mode = .comment)
  | .comment, '*' :: '/' :: rest => uncommented .text rest
  | .comment, _ :: rest => uncommented .comment rest
  | .text, '/' :: '/' :: _ => ([], false)
  | .text, '/' :: '*' :: rest => uncommented .comment rest
  | mode, char :: rest =>
      let (kept, comment) := uncommented (mode.next char) rest
      (char :: kept, comment)

def startMode (comment : Bool) : Mode :=
  if comment then .comment else .text

def uncommentedLines : (comment : Bool) → List Line → Bool × List (List Char)
  | comment, [] => (comment, [])
  | comment, line :: lines =>
      let (kept, comment) := uncommented (startMode comment) line.text
      let (comment, texts) := uncommentedLines comment lines
      (comment, kept :: texts)

/-! ## Comments that are found -/

/-- Where a comment starts: on its line, or on an earlier one. In the second case the text
behind it is put behind the last star that does not close it. -/
inductive Origin
  | opened
  | continued
  | passed
  deriving DecidableEq

def Origin.next (look : Look) (char : Char) : Origin → Origin
  | opened => opened
  | continued => if look = .plain ∧ char = '*' then passed else continued
  | passed => passed

/-- Outside comments, or inside one. -/
inductive Place
  | outside (mode : Mode)
  | inside (origin : Origin) (look : Look)

/-- Every comment of the line ends at a star that the loop finds, with room to move up what
follows it, and in front of one that does not end there is nothing. `kept` characters stand in
front of the text. `starBehind` says that there is a star behind the line. -/
def removable (len : Nat) (starBehind : Bool) : (kept : Nat) → Place → List Char → Bool
  | kept, .inside _ look, [] => kept = 0 && !(look = .behindStar && starBehind)
  | _, .outside _, [] => true
  | kept, .inside origin look, '*' :: '/' :: rest =>
      look = .plain && origin ≠ .passed && len + kept + 2 ≤ configMaxLine &&
        removable len starBehind kept (.outside .text) rest
  | kept, .inside origin look, char :: rest =>
      removable len starBehind kept (.inside (origin.next look char) (look.next char)) rest
  | _, .outside .text, '/' :: '/' :: _ => true
  | kept, .outside .text, '/' :: '*' :: rest =>
      removable len starBehind kept (.inside .opened .plain) rest
  | kept, .outside mode, char :: rest =>
      removable len starBehind (kept + 1) (.outside (mode.next char)) rest

def startPlace (comment : Bool) : Place :=
  if comment then .inside .continued .plain else .outside .text

def Line.Removable (comment : Bool) (line : Line) : Prop :=
  removable line.text.length (decide ('*' ∈ cstring line.behind)) 0 (startPlace comment)
    line.text = true

/-- Every line meets the condition, with the comment that the lines before it leave open. -/
def LinesRemovable : (comment : Bool) → List Line → Prop
  | _, [] => True
  | comment, line :: lines =>
      line.Removable comment ∧
        LinesRemovable (uncommented (startMode comment) line.text).2 lines

/-! ## Lines that meet the condition -/

/-- A comment that does not end here goes on with the next character. -/
theorem inside_cons {char : Char} {rest : List Char} (goesOn : ∀ rest', char = '*' →
    rest = '/' :: rest' → False) (look : Look) :
    uncommented .comment (char :: rest) = uncommented .comment rest ∧
      (∀ len starBehind kept, scanText len starBehind kept (.inside look) (char :: rest) =
        scanText len starBehind kept (.inside (look.next char)) rest) ∧
      (∀ len starBehind line start position,
        scanComment len starBehind line start position look (char :: rest) =
          scanComment len starBehind line (if look = .behindStar then position + 1 else start)
            (position + 1) (look.next char) rest) ∧
      ∀ start position, commentRounds start position look (char :: rest) =
        commentRounds (if look = .behindStar then position + 1 else start) (position + 1)
          (look.next char) rest + 1 := by
  refine ⟨?_, ?_, ?_, ?_⟩
  · rw [uncommented]
    exact goesOn
  · intro len starBehind kept
    rw [scanText]
    exact fun _ _ => goesOn _
  · intro len starBehind line start position
    rw [scanComment]
    exact fun _ _ => goesOn _
  · intro start position
    rw [commentRounds]
    exact fun _ _ => goesOn _

/-- What the scan leaves of a text that meets the condition, in each of its places. -/
def Place.Scans (len : Nat) (starBehind : Bool) (kept : Nat) (text : List Char) : Place → Prop
  | .outside mode => mode ≠ .comment →
      scanText len starBehind kept (.outside mode) text = some (uncommented mode text) ∧
      ((uncommented mode text).2 = true → kept = 0 ∧ (uncommented mode text).1 = [])
  | .inside .opened look =>
      scanText len starBehind kept (.inside look) text = some (uncommented .comment text) ∧
      ((uncommented .comment text).2 = true → kept = 0 ∧ (uncommented .comment text).1 = [])
  | .inside .continued look => kept = 0 → look ≠ .behindStar → ∀ line position,
      scanComment len starBehind line 0 position look text = some (uncommented .comment text) ∧
      ((uncommented .comment text).2 = true → (uncommented .comment text).1 = []) ∧
      commentRounds 0 position look text ≤ text.length
  | .inside .passed look => ∀ line start position,
      scanComment len starBehind line start position look text = some ([], true) ∧
      uncommented .comment text = ([], true) ∧
      commentRounds start position look text ≤ text.length

/-- A comment that does not end here is left as what goes on behind the character. -/
theorem Place.scans_cons {len : Nat} {starBehind : Bool} {kept : Nat} {origin : Origin}
    {look : Look} {char : Char} {rest : List Char}
    (goesOn : ∀ rest', char = '*' → rest = '/' :: rest' → False)
    (scans : (Place.inside (origin.next look char) (look.next char)).Scans len starBehind kept
      rest) : (Place.inside origin look).Scans len starBehind kept (char :: rest) := by
  rcases inside_cons goesOn look with ⟨same, text, comment, rounds⟩
  cases origin with
  | opened =>
      rw [Place.Scans, same, text]
      exact scans
  | continued =>
      rintro empty searching line position
      rw [same, comment, rounds, if_neg searching]
      by_cases star : look = .plain ∧ char = '*'
      · rw [Origin.next, if_pos star] at scans
        rcases scans line 0 (position + 1) with ⟨scanned, ended, fewer⟩
        rw [scanned, ended]
        exact ⟨rfl, fun _ => rfl, Nat.succ_le_succ fewer⟩
      · rw [Origin.next, if_neg star] at scans
        rcases scans empty (Look.next_ne_behindStar star) line (position + 1) with
          ⟨scanned, lost, fewer⟩
        exact ⟨scanned, lost, Nat.succ_le_succ fewer⟩
  | passed =>
      intro line start position
      rw [same, comment, rounds]
      rcases scans line _ (position + 1) with ⟨scanned, ended, fewer⟩
      exact ⟨scanned, ended, Nat.succ_le_succ fewer⟩

/-- What follows the end of a comment is left as text, if there is room to move it up. -/
theorem Place.scans_close {len : Nat} {starBehind : Bool} {kept : Nat} {origin : Origin}
    {rest : List Char} (known : origin ≠ .passed) (room : len + kept + 2 ≤ configMaxLine)
    (scans : (Place.outside .text).Scans len starBehind kept rest) :
    (Place.inside origin .plain).Scans len starBehind kept ('*' :: '/' :: rest) := by
  have after := scans Mode.noConfusion
  have closed : uncommented .comment ('*' :: '/' :: rest) = uncommented .text rest := rfl
  cases origin with
  | opened =>
      refine ⟨?_, after.2⟩
      rw [scanText, if_pos room, closed]
      exact after.1
  | continued =>
      rintro rfl - line position
      refine ⟨?_, fun ends => (after.2 ends).2, ?_⟩
      · rw [scanComment, if_pos room, closed]
        exact after.1
      · rw [commentRounds, List.length_cons, List.length_cons]
        omega
  | passed => exact absurd rfl known

theorem scans_of_removable {len : Nat} {starBehind : Bool} {kept : Nat} {place : Place}
    {text : List Char} (holds : removable len starBehind kept place text = true) :
    place.Scans len starBehind kept text := by
  induction kept, place, text using removable.induct with
  | case1 kept origin look =>
      simp only [removable, Bool.and_eq_true, decide_eq_true_eq, Bool.not_eq_true',
        Bool.and_eq_false_iff, decide_eq_false_iff_not] at holds
      rcases holds with ⟨rfl, quiet⟩
      have stays : ¬(look = .behindStar ∧ starBehind = true) := by
        rintro ⟨rfl, star⟩
        rcases quiet with other | none
        · exact other rfl
        · rw [star] at none
          cases none
      cases origin with
      | opened => exact ⟨by rw [scanText, if_neg stays]; rfl, fun _ => ⟨rfl, rfl⟩⟩
      | continued =>
          exact fun _ _ _ _ => ⟨by rw [scanComment, if_neg stays]; rfl, fun _ => rfl, Nat.zero_le _⟩
      | passed =>
          exact fun _ _ _ => ⟨by rw [scanComment, if_neg stays], rfl, Nat.zero_le _⟩
  | case2 kept mode =>
      intro outside
      have plain : uncommented mode [] = ([], false) := by simp [uncommented, outside]
      rw [plain]
      exact ⟨rfl, fun ends => absurd ends Bool.false_ne_true⟩
  | case3 kept origin look rest induction =>
      simp only [removable, Bool.and_eq_true, decide_eq_true_eq] at holds
      rcases holds with ⟨⟨⟨rfl, known⟩, room⟩, later⟩
      exact Place.scans_close known room (induction later)
  | case4 kept origin look char rest goesOn induction =>
      have later : removable len starBehind kept
          (.inside (origin.next look char) (look.next char)) rest = true := by
        rwa [removable] at holds
        exact goesOn
      exact Place.scans_cons goesOn (induction later)
  | case5 kept rest => exact fun _ => ⟨rfl, fun ends => absurd ends Bool.false_ne_true⟩
  | case6 kept rest induction =>
      intro _
      have later : removable len starBehind kept (.inside .opened .plain) rest = true := by
        rwa [removable] at holds
      have opened : uncommented .text ('/' :: '*' :: rest) = uncommented .comment rest := rfl
      rw [opened, scanText]
      exact induction later
  | case7 kept mode char rest line star induction =>
      intro outside
      have later : removable len starBehind (kept + 1) (.outside (mode.next char)) rest = true := by
        rwa [removable] at holds
        · exact line
        · exact star
      rcases induction later (Mode.next_ne_comment outside char) with ⟨scanned, lost⟩
      have keeps : uncommented mode (char :: rest) =
          (char :: (uncommented (mode.next char) rest).1,
            (uncommented (mode.next char) rest).2) := by
        rw [uncommented]
        · exact fun _ same => absurd same outside
        · exact fun same => absurd same outside
        · exact line
        · exact star
      have scan : scanText len starBehind kept (.outside mode) (char :: rest) =
          (scanText len starBehind (kept + 1) (.outside (mode.next char)) rest).map
            (Prod.map (char :: ·) id) := by
        rw [scanText]
        · rfl
        · exact line
        · exact star
      rw [keeps, scan, scanned]
      refine ⟨rfl, fun ends => ?_⟩
      -- the character is kept, so that no comment goes on behind it
      have none := (lost ends).1
      omega

/-- A line of which the condition holds keeps what is no comment. -/
theorem configRemoveComments_line {comment : Bool} {line : Line}
    (removable : line.Removable comment) {rounds : Nat} (enough : configMaxLine ≤ rounds) :
    ∃ cells, configRemoveComments rounds comment line.cells =
        some (.ok ((uncommented (startMode comment) line.text).2, cells)) ∧
      cstring cells = (uncommented (startMode comment) line.text).1 := by
  have size := line.size
  have scans := scans_of_removable removable
  have settled : settle (uncommented (startMode comment) line.text) =
      uncommented (startMode comment) line.text ∧
      scanLine (decide ('*' ∈ cstring line.behind)) comment line.text =
        some (settle (uncommented (startMode comment) line.text)) ∧
      (if comment then commentRounds 0 0 .plain line.text else line.text.length) ≤
        line.text.length := by
    have settles {result : List Char × Bool} (lost : result.2 = true → result.1 = []) :
        settle result = result := by
      rw [settle]
      split
      · rename_i ends
        exact Prod.ext (lost ends).symm rfl
      · rfl
    cases comment with
    | false =>
        rcases scans Mode.noConfusion with ⟨scanned, lost⟩
        refine ⟨settles fun ends => (lost ends).2, ?_, Nat.le_refl _⟩
        exact congrArg (Option.map settle) scanned
    | true =>
        rcases scans rfl Look.noConfusion line.text 0 with ⟨scanned, lost, fewer⟩
        exact ⟨settles lost, congrArg (Option.map settle) scanned, fewer⟩
  rcases settled with ⟨same, scanned, fewer⟩
  rw [same] at scanned
  exact configRemoveComments_scan decide_eq_true scanned (by omega)

/-- Over lines that all meet the condition, exactly the comments are removed. -/
theorem comments_removed_exactly {comment : Bool} {lines : List Line}
    (removable : LinesRemovable comment lines) {rounds : Nat} (enough : configMaxLine ≤ rounds) :
    removeFromLines rounds comment lines = some (.ok (uncommentedLines comment lines)) := by
  induction lines generalizing comment with
  | nil => rfl
  | cons line lines induction =>
      rcases configRemoveComments_line removable.1 enough with ⟨cells, removed, kept⟩
      rw [removeFromLines, removed]
      simp only [induction removable.2, kept]
      rfl

/-- A comment over three lines, with text in front of it on another line. -/
theorem comments_removed_exactly_wrapped :
    let lines := [
      Line.ofText "a: b=\"/*\"; // c".toList (by decide) (by decide),
      Line.ofText "/* d".toList (by decide) (by decide),
      Line.ofText "e".toList (by decide) (by decide),
      Line.ofText "f */ g=h; /* i */".toList (by decide) (by decide)]
    removeFromLines 255 false lines = some (.ok (uncommentedLines false lines)) ∧
      uncommentedLines false lines =
        (false, ["a: b=\"/*\"; ".toList, [], [], " g=h; ".toList]) := by
  intro lines
  have removable : LinesRemovable false lines :=
    ⟨rfl, rfl, rfl, rfl, trivial⟩
  exact ⟨comments_removed_exactly removable (Nat.le_refl 255), by decide⟩

theorem removeFromLines_le {rounds more : Nat} {comment : Bool} {lines : List Line}
    {result : Checked (Bool × List (List Char))}
    (removed : removeFromLines rounds comment lines = some result) (enough : rounds ≤ more) :
    removeFromLines more comment lines = some result := by
  induction lines generalizing comment result with
  | nil => exact removed
  | cons line lines induction =>
      rw [removeFromLines] at removed ⊢
      cases first : configRemoveComments rounds comment line.cells with
      | none =>
          rw [first] at removed
          cases removed
      | some removal =>
          rw [first] at removed
          rw [configRemoveComments_le first enough]
          rcases removal with fault | ⟨comment, cells⟩
          · exact removed
          · simp only [Option.map_eq_some_iff] at removed ⊢
            rcases removed with ⟨others, removed, rfl⟩
            exact ⟨others, induction removed, rfl⟩

/-- What stands in front of a comment that goes on on the next line is lost. -/
theorem not_comments_removed_exactly :
    ¬∀ lines, ∃ rounds,
      removeFromLines rounds false lines = some (.ok (uncommentedLines false lines)) := by
  intro exactly
  let line := Line.ofText "a: b=c; /* d".toList (by decide) (by decide)
  rcases exactly [line] with ⟨rounds, removed⟩
  have lost : removeFromLines 2 false [line] = some (.ok (true, [[]])) := by rfl
  have same := (removeFromLines_le removed (Nat.le_max_left rounds 2)).symm.trans
    (removeFromLines_le lost (Nat.le_max_right rounds 2))
  have kept : uncommentedLines false [line] = (true, ["a: b=c; ".toList]) := by decide
  rw [kept] at same
  cases same

end Vpopmail.Config

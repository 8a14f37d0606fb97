import Vpopmail.Config.Tokens
import Vpopmail.Foundation.Copying

/-! # Comments of configuration files

`config_remove_comments` takes comments out of a line in the buffer of the line. Whether the
end of a line is inside a comment is kept for the next line.
-/

namespace Vpopmail.Config

open Text Buffer

/-! ## `config_remove_comments` -/

/-- The flag `CF_COMMENT`, the cells of the line, and the locals of
`config_remove_comments`, as positions. -/
structure Removal where
  comment : Bool
  cells : List Char
  s : Nat
  p : Nat
  t : Option Nat

/-- `config_next_token` from a position of the cells. -/
def tokenAt (cells : List Char) (start : Nat) (token : Char) : Checked (Option Nat) :=
  (stringAt cells start).map fun str => (configNextToken str token).map (start + ·)

namespace Removal

/-- A round outside comments, and whether another one follows. -/
def outside (removal : Removal) : Checked (Removal × Bool) :=
  (tokenAt removal.cells removal.s '/').bind fun
    | none => .ok (removal, false)
    | some t =>
        match removal.cells[t + 1]? with
        | some '/' =>
            (poke t nul removal.cells).map fun cells => ({ removal with cells := cells }, false)
        | some '*' => .ok ({ removal with comment := true, p := t + 2, t := some t }, true)
        | _ => .ok ({ removal with s := t + 1, t := some t }, true)

/-- A round inside a comment. `len` is the length of the line before anything was taken out
of it. -/
def inside (len : Nat) (removal : Removal) : Checked (Removal × Bool) :=
  (tokenAt removal.cells removal.p '*').bind fun
    | none =>
        (poke 0 nul removal.cells).map fun cells => ({ removal with cells := cells }, false)
    | some h =>
        if removal.cells[h + 1]? = some '/' then
          let t := removal.t.getD removal.p
          -- below zero the number of characters is a huge one; the regions overlap, which C leaves
          -- undefined, and are taken to be copied from the first character to the last
          if len + t < h then .error .outOfBounds
          else
            ((memcpy t (len + t - h) (removal.cells.drop (h + 2)) removal.cells).bind
              (poke (len + t - h) nul)).map fun cells =>
                ({ removal with comment := false, cells := cells, t := some t }, true)
        else .ok ({ removal with p := h + 2 }, true)

def round (len : Nat) (removal : Removal) : Checked (Removal × Bool) :=
  if removal.comment then removal.inside len else removal.outside

/-- At most `rounds` rounds of the loop. -/
def run (len : Nat) : (rounds : Nat) → Removal → Option (Checked Removal)
  | 0, _ => none
  | rounds + 1, removal =>
      match removal.round len with
      | .error fault => some (.error fault)
      | .ok (removal, true) => run len rounds removal
      | .ok (removal, false) => some (.ok removal)

end Removal

/-- `config_remove_comments`, which need not come to an end. -/
def configRemoveComments (rounds : Nat) (comment : Bool) (cells : List Char) :
    Option (Checked (Bool × List Char)) :=
  (Removal.run (cstring cells).length rounds ⟨comment, cells, 0, 0, none⟩).map fun removed =>
    removed.map fun removal => (removal.comment, removal.cells)

/-- A line in the buffer of `config_contents`. Zeros stand behind it, or what follows a
carriage return. -/
structure Line where
  text : List Char
  behind : List Char
  free : Free nul text
  ended : nul ∈ behind
  size : text.length + 1 + behind.length = configMaxLine

namespace Line

def cells (line : Line) : List Char :=
  line.text ++ nul :: line.behind

/-- A line in a buffer of zeros. -/
def ofText (text : List Char) (free : Free nul text) (fits : text.length + 1 < configMaxLine) :
    Line where
  text := text
  behind := List.replicate (configMaxLine - text.length - 1) nul
  free := free
  ended := List.mem_replicate.mpr ⟨by omega, rfl⟩
  size := by
    rw [List.length_replicate]
    omega

end Line

/-- What is left of the lines, one after the other. -/
def removeFromLines (rounds : Nat) : (comment : Bool) → List Line →
    Option (Checked (Bool × List (List Char)))
  | comment, [] => some (.ok (comment, []))
  | comment, line :: lines =>
      match configRemoveComments rounds comment line.cells with
      | none => none
      | some (.error fault) => some (.error fault)
      | some (.ok (comment, cells)) =>
          (removeFromLines rounds comment lines).map fun removed =>
            removed.map fun (comment, texts) => (comment, cstring cells :: texts)

/-! ## The course of the loop -/

inductive Mode
  | text
  | escape
  | quotes
  | comment
  deriving DecidableEq

namespace Mode

/-- The mode behind a character that is kept. -/
def next : Mode → Char → Mode
  | text, char => if char = '\\' then escape else if char = '"' then quotes else text
  | escape, _ => text
  | quotes, char => if char = '"' then text else quotes
  | comment, _ => comment

end Mode

/-- How the loop looks at the next character of a comment. -/
inductive Look
  | plain
  | escaped
  | quoted
  | behindStar
  deriving DecidableEq

def Look.next : Look → Char → Look
  | plain, char =>
      if char = '\\' then escaped else if char = '"' then quoted
      else if char = '*' then behindStar else plain
  | escaped, _ => plain
  | quoted, char => if char = '"' then plain else quoted
  | behindStar, _ => plain

/-- Outside comments, or inside one. -/
inductive Course
  | outside (mode : Mode)
  | inside (look : Look)

/-- What the loop leaves of a text, and whether that ends in a comment. `kept` characters stand
in front of it. When a comment is taken out there must be room behind the line for `kept`
characters and two more, and a star at the end takes the search behind the line, where
`starBehind` says that there is another one. -/
def scanText (len : Nat) (starBehind : Bool) : (kept : Nat) → Course → List Char →
    Option (List Char × Bool)
  | _, .outside _, [] => some ([], false)
  | _, .inside look, [] => if look = .behindStar ∧ starBehind = true then none else some ([], true)
  | kept, .inside .plain, '*' :: '/' :: rest =>
      if len + kept + 2 ≤ configMaxLine then scanText len starBehind kept (.outside .text) rest
      else none
  | kept, .inside look, char :: rest => scanText len starBehind kept (.inside (look.next char)) rest
  | _, .outside .text, '/' :: '/' :: _ => some ([], false)
  | kept, .outside .text, '/' :: '*' :: rest => scanText len starBehind kept (.inside .plain) rest
  | kept, .outside mode, char :: rest =>
      (scanText len starBehind (kept + 1) (.outside (mode.next char)) rest).map
        fun (text, comment) => (char :: text, comment)

/-- The same for a line in the comment of an earlier one. The text behind the comment is put
where the search for its end has begun, and looked through with what stands in front. -/
def scanComment (len : Nat) (starBehind : Bool) (line : List Char) :
    (start position : Nat) → Look → List Char → Option (List Char × Bool)
  | _, _, look, [] => if look = .behindStar ∧ starBehind = true then none else some ([], true)
  | start, _, .plain, '*' :: '/' :: rest =>
      if len + start + 2 ≤ configMaxLine then
        scanText len starBehind 0 (.outside .text) (line.take start ++ rest)
      else none
  | start, position, look, char :: rest =>
      scanComment len starBehind line (if look = .behindStar then position + 1 else start)
        (position + 1) (look.next char) rest

/-- How many rounds there are left, at most, for the rest of such a line. -/
def commentRounds : (start position : Nat) → Look → List Char → Nat
  | _, _, _, [] => 0
  | start, _, .plain, '*' :: '/' :: rest => start + rest.length + 1
  | start, position, look, char :: rest =>
      commentRounds (if look = .behindStar then position + 1 else start) (position + 1)
        (look.next char) rest + 1

/-- A line that ends in a comment is lost. -/
def settle (result : List Char × Bool) : List Char × Bool :=
  (if result.2 then [] else result.1, result.2)

/-- What is left of a line, and whether it ends in a comment, if the loop comes to an end in
the buffer of the line. -/
def scanLine (starBehind comment : Bool) (line : List Char) : Option (List Char × Bool) :=
  (if comment then scanComment line.length starBehind line 0 0 .plain line
    else scanText line.length starBehind 0 (.outside .text) line).map settle

/-! ## Taking a comment out -/

/-- What stands behind a comment is moved up, with the cells behind the line. -/
theorem moveUp {kept comment rest behind : List Char} {len : Nat}
    (short : kept.length + comment.length + rest.length ≤ len) (marks : 2 ≤ comment.length)
    (room : len + kept.length + 2 ≤ kept.length + comment.length + rest.length + 1 +
      behind.length) :
    ∃ count tail,
      (memcpy kept.length (len + 2 - comment.length) (rest ++ nul :: behind)
        (kept ++ comment ++ rest ++ nul :: behind)).bind
          (poke (len + 2 - comment.length) nul) =
        .ok (kept ++ rest ++ nul :: (behind.take count ++ nul :: tail)) := by
  generalize counted : len + 2 - comment.length = amount
  have inside : amount ≤ (rest ++ nul :: behind).length ∧
      kept.length + amount ≤ (kept ++ comment ++ rest ++ nul :: behind).length := by
    simp only [List.length_append, List.length_cons]
    omega
  have moved : (rest ++ nul :: behind).take amount =
      rest ++ nul :: behind.take (amount - rest.length - 1) := by
    rw [List.take_append, List.take_of_length_le (by omega)]
    have more : amount - rest.length = amount - rest.length - 1 + 1 := by omega
    rw [more, List.take_succ_cons]
    rfl
  have left : (kept ++ comment ++ rest ++ nul :: behind).take kept.length = kept := by
    simp only [List.append_assoc, List.take_left]
  generalize dropped : (kept ++ comment ++ rest ++ nul :: behind).drop (kept.length + amount) =
    after at *
  have size : after.length = kept.length + comment.length + rest.length + 1 + behind.length -
      (kept.length + amount) := by
    rw [← dropped]
    simp only [List.length_drop, List.length_append, List.length_cons]
    omega
  have copied : memcpy kept.length amount (rest ++ nul :: behind)
      (kept ++ comment ++ rest ++ nul :: behind) =
        .ok ((kept ++ rest) ++
          nul :: (behind.take (amount - rest.length - 1) ++ after)) := by
    rw [memcpy, if_pos inside, left, moved, dropped]
    simp only [List.append_assoc, List.cons_append]
  generalize behindSize : amount - rest.length - 1 = many at *
  have position : amount = (kept ++ rest).length + (amount - (kept ++ rest).length - 1 + 1) := by
    simp only [List.length_append]
    omega
  have early : amount - (kept ++ rest).length - 1 ≤ many := by
    simp only [List.length_append]
    omega
  generalize cutAt : amount - (kept ++ rest).length - 1 = count at *
  have many_le : many ≤ behind.length := by omega
  have within : count < (behind.take many ++ after).length := by
    simp only [List.length_append, List.length_take] at position ⊢
    omega
  refine ⟨count, (behind.take many ++ after).drop (count + 1), ?_⟩
  rw [copied, Except.bind, poke, if_pos]
  · rw [position, List.set_append_right _ _ (Nat.le_add_right _ _), Nat.add_sub_cancel_left,
      List.set_cons_succ, List.set_eq_take_append_cons_drop, if_pos within,
      List.take_append_of_le_length (by rw [List.length_take]; omega), List.take_take,
      Nat.min_eq_left early]
  · simp only [List.length_append, List.length_cons] at within position ⊢
    omega

theorem mem_cstring_take {char : Char} {behind tail : List Char} {count : Nat}
    (member : char ∈ cstring (behind.take count ++ nul :: tail)) : char ∈ cstring behind := by
  induction behind generalizing count with
  | nil => simp [cstring] at member
  | cons head behind induction =>
      cases count with
      | zero => simp [cstring] at member
      | succ count =>
          by_cases ended : head = nul
          · simp [cstring, ended] at member
          · have kept : cstring (head :: behind) = head :: cstring behind := by
              simp [cstring, ended]
            have cut : cstring ((head :: behind).take (count + 1) ++ nul :: tail) =
                head :: cstring (behind.take count ++ nul :: tail) := by
              simp [cstring, ended]
            rw [cut, List.mem_cons] at member
            rw [kept, List.mem_cons]
            exact member.imp_right induction

/-! ## Looking for the next mark -/

namespace Mode

/-- The search for a slash that has come to this mode. -/
def search (mode : Mode) (text : List Char) : Option Nat :=
  nextToken '/' (mode = escape) (mode = quotes) text

theorem search_slash (rest : List Char) : text.search ('/' :: rest) = some 0 := by
  simp [search, nextToken]

/-- A character that is no mark, outside comments. -/
theorem search_cons {mode : Mode} {char : Char} (outside : mode ≠ comment)
    (other : ¬(mode = text ∧ char = '/')) (rest : List Char) :
    mode.search (char :: rest) = ((mode.next char).search rest).map (· + 1) := by
  cases mode with
  | text =>
      have notSlash : char ≠ '/' := fun same => other ⟨rfl, same⟩
      by_cases backslash : char = '\\'
      · simp [search, nextToken, next, backslash]
      · by_cases quote : char = '"'
        · simp [search, nextToken, next, quote]
        · simp [search, nextToken, next, backslash, quote, notSlash]
  | escape => simp [search, nextToken, next]
  | quotes =>
      by_cases quote : char = '"'
      · simp [search, nextToken, next, quote]
      · simp [search, nextToken, next, quote]
  | comment => exact absurd rfl outside

theorem next_ne_comment {mode : Mode} (outside : mode ≠ comment) (char : Char) :
    mode.next char ≠ comment := by
  cases mode with
  | text =>
      rw [next]
      split
      · exact nofun
      split
      · exact nofun
      · exact nofun
  | escape => exact nofun
  | quotes =>
      rw [next]
      split
      · exact nofun
      · exact nofun
  | comment => exact absurd rfl outside

end Mode

theorem scanText_cons {mode : Mode} {char : Char} (other : ¬(mode = .text ∧ char = '/'))
    (len : Nat) (starBehind : Bool) (kept : Nat) (rest : List Char) :
    scanText len starBehind kept (.outside mode) (char :: rest) =
      (scanText len starBehind (kept + 1) (.outside (mode.next char)) rest).map
        fun (text, comment) => (char :: text, comment) := by
  cases mode with
  | text =>
      have notSlash : char ≠ '/' := fun same => other ⟨rfl, same⟩
      simp [scanText, notSlash]
  | escape => simp [scanText]
  | quotes => simp [scanText]
  | comment => simp [scanText]

/-- Without a slash outside quotes nothing is taken out. -/
theorem scanText_of_search_none {mode : Mode} (outside : mode ≠ .comment) {text : List Char}
    (none : mode.search text = none) (len : Nat) (starBehind : Bool) (kept : Nat) :
    scanText len starBehind kept (.outside mode) text = some (text, false) := by
  induction text generalizing mode kept with
  | nil => rfl
  | cons char rest induction =>
      have other : ¬(mode = .text ∧ char = '/') := by
        intro marked
        rw [marked.1, marked.2, Mode.search_slash] at none
        cases none
      rw [Mode.search_cons outside other, Option.map_eq_none_iff] at none
      rw [scanText_cons other, induction (Mode.next_ne_comment outside char) none]
      rfl

/-- What stands in front of the slash that is found is kept. -/
theorem split_of_search {mode : Mode} (outside : mode ≠ .comment) {text : List Char}
    {position : Nat} (found : mode.search text = some position) :
    ∃ before rest, text = before ++ '/' :: rest ∧ before.length = position ∧
      (∀ tail, mode.search (before ++ tail) =
        (Mode.text.search tail).map (before.length + ·)) ∧
      ∀ len starBehind kept,
        scanText len starBehind kept (.outside mode) text =
          (scanText len starBehind (kept + before.length) (.outside .text) ('/' :: rest)).map
            fun (text, comment) => (before ++ text, comment) := by
  induction text generalizing mode position with
  | nil => cases found
  | cons char rest induction =>
      by_cases marked : mode = .text ∧ char = '/'
      · rcases marked with ⟨rfl, rfl⟩
        rw [Mode.search_slash] at found
        cases found
        refine ⟨[], rest, rfl, rfl, ?_, ?_⟩
        · intro tail
          simp
        · intro len starBehind kept
          exact (Option.map_id' (x := scanText len starBehind kept _ _)).symm
      · rw [Mode.search_cons outside marked, Option.map_eq_some_iff] at found
        rcases found with ⟨earlier, found, rfl⟩
        rcases induction (Mode.next_ne_comment outside char) found with
          ⟨before, after, rfl, rfl, clean, same⟩
        refine ⟨char :: before, after, rfl, rfl, ?_, ?_⟩
        · intro tail
          rw [List.cons_append, Mode.search_cons outside marked, clean, Option.map_map]
          congr 1
          funext position
          exact Nat.add_right_comm _ _ _
        · intro len starBehind kept
          rw [scanText_cons marked, same, List.length_cons, Nat.add_assoc, Nat.add_comm 1,
            Option.map_map]
          rfl

/-! ## Looking for the end of a comment -/

namespace Look

/-- The search for a star that has come to this look. -/
def search (look : Look) (text : List Char) : Option Nat :=
  nextToken '*' (look = escaped) (look = quoted) text

theorem search_star (rest : List Char) : plain.search ('*' :: rest) = some 0 := by
  simp [search, nextToken]

theorem search_cons {look : Look} {char : Char} (searching : look ≠ behindStar)
    (other : ¬(look = plain ∧ char = '*')) (rest : List Char) :
    look.search (char :: rest) = ((look.next char).search rest).map (· + 1) := by
  cases look with
  | plain =>
      have notStar : char ≠ '*' := fun same => other ⟨rfl, same⟩
      by_cases backslash : char = '\\'
      · simp [search, nextToken, next, backslash]
      · by_cases quote : char = '"'
        · simp [search, nextToken, next, quote]
        · simp [search, nextToken, next, backslash, quote, notStar]
  | escaped => simp [search, nextToken, next]
  | quoted =>
      by_cases quote : char = '"'
      · simp [search, nextToken, next, quote]
      · simp [search, nextToken, next, quote]
  | behindStar => exact absurd rfl searching

theorem next_ne_behindStar {look : Look} {char : Char} (other : ¬(look = plain ∧ char = '*')) :
    look.next char ≠ behindStar := by
  cases look with
  | plain =>
      have notStar : char ≠ '*' := fun same => other ⟨rfl, same⟩
      rw [next, if_neg notStar]
      split
      · exact nofun
      split
      · exact nofun
      · exact nofun
  | escaped => exact nofun
  | quoted =>
      rw [next]
      split
      · exact nofun
      · exact nofun
  | behindStar => exact nofun

end Look

/-- A character of a comment that is no star the loop looks at. -/
theorem scan_cons {look : Look} {char : Char} (searching : look ≠ .behindStar)
    (other : ¬(look = .plain ∧ char = '*')) (len : Nat) (starBehind : Bool) (rest : List Char) :
    (∀ kept, scanText len starBehind kept (.inside look) (char :: rest) =
      scanText len starBehind kept (.inside (look.next char)) rest) ∧
    (∀ line start position, scanComment len starBehind line start position look (char :: rest) =
      scanComment len starBehind line start (position + 1) (look.next char) rest) ∧
    ∀ start position, commentRounds start position look (char :: rest) =
      commentRounds start (position + 1) (look.next char) rest + 1 := by
  cases look with
  | plain =>
      have notStar : char ≠ '*' := fun same => other ⟨rfl, same⟩
      exact ⟨fun _ => by simp [scanText, notStar], fun _ _ _ => by simp [scanComment, notStar],
        fun _ _ => by simp [commentRounds, notStar]⟩
  | escaped =>
      exact ⟨fun _ => by simp [scanText], fun _ _ _ => by simp [scanComment],
        fun _ _ => by simp [commentRounds]⟩
  | quoted =>
      exact ⟨fun _ => by simp [scanText], fun _ _ _ => by simp [scanComment],
        fun _ _ => by simp [commentRounds]⟩
  | behindStar => exact absurd rfl searching

/-- Where no star is found the comment does not end. -/
theorem scan_of_search_none {look : Look} (searching : look ≠ .behindStar) {text : List Char}
    (none : look.search text = none) (len : Nat) (starBehind : Bool) :
    (∀ kept, scanText len starBehind kept (.inside look) text = some ([], true)) ∧
    ∀ line start position, scanComment len starBehind line start position look text =
      some ([], true) := by
  induction text generalizing look with
  | nil => exact ⟨fun _ => by simp [scanText, searching], fun _ _ _ => by simp [scanComment, searching]⟩
  | cons char rest induction =>
      have other : ¬(look = .plain ∧ char = '*') := by
        intro marked
        rw [marked.1, marked.2, Look.search_star] at none
        cases none
      rw [Look.search_cons searching other, Option.map_eq_none_iff] at none
      rcases scan_cons searching other len starBehind rest with ⟨text, comment, -⟩
      rcases induction (Look.next_ne_behindStar other) none with ⟨textEnds, commentEnds⟩
      exact ⟨fun kept => (text kept).trans (textEnds kept),
        fun line start position => (comment line start position).trans (commentEnds line start _)⟩

theorem scan_of_search {look : Look} (searching : look ≠ .behindStar) {text : List Char}
    {position : Nat} (found : look.search text = some position) (len : Nat) (starBehind : Bool) :
    ∃ before rest, text = before ++ '*' :: rest ∧ before.length = position ∧
      (∀ kept, scanText len starBehind kept (.inside look) text =
        scanText len starBehind kept (.inside .plain) ('*' :: rest)) ∧
      (∀ line start earlier, scanComment len starBehind line start earlier look text =
        scanComment len starBehind line start (earlier + before.length) .plain ('*' :: rest)) ∧
      ∀ start earlier, commentRounds start earlier look text =
        commentRounds start (earlier + before.length) .plain ('*' :: rest) + before.length := by
  induction text generalizing look position with
  | nil => cases found
  | cons char rest induction =>
      by_cases marked : look = .plain ∧ char = '*'
      · rcases marked with ⟨rfl, rfl⟩
        rw [Look.search_star] at found
        cases found
        exact ⟨[], rest, rfl, rfl, fun _ => rfl, fun _ _ _ => rfl, fun _ _ => rfl⟩
      · rw [Look.search_cons searching marked, Option.map_eq_some_iff] at found
        rcases found with ⟨sooner, found, rfl⟩
        rcases scan_cons searching marked len starBehind rest with ⟨text, comment, rounds⟩
        rcases induction (Look.next_ne_behindStar marked) found with
          ⟨before, after, rfl, rfl, sameText, sameComment, sameRounds⟩
        refine ⟨char :: before, after, rfl, rfl, fun kept => (text kept).trans (sameText kept), ?_,
          ?_⟩
        · intro line start earlier
          rw [comment, sameComment, List.length_cons, Nat.add_assoc, Nat.add_comm 1]
        · intro start earlier
          rw [rounds, sameRounds, List.length_cons, Nat.add_assoc earlier, Nat.add_comm 1,
            Nat.add_assoc]

/-- At a star that is the last character, that ends the comment, or that is passed. -/
theorem scan_star (len : Nat) (starBehind : Bool) :
    (∀ kept, scanText len starBehind kept (.inside .plain) ['*'] =
      if starBehind = true then none else some ([], true)) ∧
    ∀ line start position, scanComment len starBehind line start position .plain ['*'] =
      if starBehind = true then none else some ([], true) := by
  constructor
  · intro kept
    rw [scanText.eq_def]
    simp [Look.next, scanText]
  · intro line start position
    rw [scanComment.eq_def]
    simp [Look.next, scanComment]

theorem scan_pass {second : Char} (notSlash : second ≠ '/') (len : Nat) (starBehind : Bool)
    (rest : List Char) :
    (∀ kept, scanText len starBehind kept (.inside .plain) ('*' :: second :: rest) =
      scanText len starBehind kept (.inside .plain) rest) ∧
    (∀ line start position,
      scanComment len starBehind line start position .plain ('*' :: second :: rest) =
        scanComment len starBehind line (position + 2) (position + 2) .plain rest) ∧
    ∀ start position, commentRounds start position .plain ('*' :: second :: rest) =
      commentRounds (position + 2) (position + 2) .plain rest + 2 := by
  refine ⟨?_, ?_, ?_⟩
  · intro kept
    simp [scanText, notSlash, Look.next]
  · intro line start position
    simp [scanComment, notSlash, Look.next]
  · intro start position
    simp [commentRounds, notSlash, Look.next]

/-! ## The loop on a line -/

theorem tokenAt_append {before text : List Char} (free : Free nul text) (behind : List Char)
    (token : Char) :
    tokenAt (before ++ text ++ nul :: behind) before.length token =
      .ok ((configNextToken text token).map (before.length + ·)) := by
  rw [tokenAt, stringAt_append_nul free]
  rfl

/-- The cells hold what is kept, what was passed of a comment, and the rest of the line. -/
structure Loaded (len : Nat) (starBehind : Bool) (removal : Removal)
    (kept gap text behind : List Char) : Prop where
  cells : removal.cells = kept ++ gap ++ text ++ nul :: behind
  size : removal.cells.length = configMaxLine
  ended : nul ∈ behind
  star : '*' ∈ cstring behind → starBehind = true
  keptFree : Free nul kept
  textFree : Free nul text
  begun : removal.s ≤ kept.length
  clean : Clean '/' (kept.drop removal.s)
  short : kept.length + gap.length + text.length ≤ len


/-- Text that is put behind another one. -/
def putBehind (kept : List Char) : List Char × Bool → List Char × Bool := Prod.map (kept ++ ·) id

theorem putBehind_append (kept before : List Char) :
    putBehind kept ∘ putBehind before = putBehind (kept ++ before) := by
  funext result
  exact Prod.ext (List.append_assoc kept before result.1).symm rfl

structure Outside (len : Nat) (starBehind : Bool) (removal : Removal)
    (kept text behind : List Char) (result : List Char × Bool) : Prop extends
    Loaded len starBehind removal kept [] text behind where
  comment : removal.comment = false
  scanned : (scanText len starBehind kept.length (.outside .text) text).map (putBehind kept) =
    some result

/-- In a comment of the line, which begins behind what is kept. -/
structure Opened (len : Nat) (starBehind : Bool) (removal : Removal)
    (kept gap text behind : List Char) (result : List Char × Bool) : Prop extends
    Loaded len starBehind removal kept gap text behind where
  comment : removal.comment = true
  place : removal.p = (kept ++ gap).length
  start : removal.t = some kept.length
  scanned : (scanText len starBehind kept.length (.inside .plain) text).map (putBehind kept) =
    some result

/-- In the comment of an earlier line. -/
structure Continued (len : Nat) (starBehind : Bool) (removal : Removal)
    (gap text behind : List Char) (result : List Char × Bool) : Prop extends
    Loaded len starBehind removal [] gap text behind where
  comment : removal.comment = true
  place : removal.p = gap.length
  start : removal.t = none
  gapFree : Free nul gap
  scanned : scanComment len starBehind (gap ++ text) gap.length gap.length .plain text =
    some result

/-- Between two rounds, with the result that the line comes to and the characters that are
left to read. The last star of a line can have taken `p` over the terminator. -/
inductive Between (len : Nat) (starBehind : Bool) (removal : Removal) (result : List Char × Bool) :
    Nat → Prop
  | outside {kept text behind : List Char}
      (outside : Outside len starBehind removal kept text behind result) :
      Between len starBehind removal result text.length
  | opened {kept gap text behind : List Char}
      (opened : Opened len starBehind removal kept gap text behind result) :
      Between len starBehind removal result text.length
  | continued {gap text behind : List Char}
      (continued : Continued len starBehind removal gap text behind result) :
      Between len starBehind removal result (commentRounds gap.length gap.length .plain text)
  | past (comment : removal.comment = true) (none : tokenAt removal.cells removal.p '*' = .ok none)
      (size : removal.cells.length = configMaxLine) (lost : result.2 = true) :
      Between len starBehind removal result 0

/-- The round ends the line as it should, or comes nearer to its end. -/
def Removal.Advances (len : Nat) (starBehind : Bool) (removal : Removal)
    (result : List Char × Bool) (left : Nat) : Prop :=
  (∃ after, removal.round len = .ok (after, false) ∧
    (cstring after.cells, after.comment) = settle result) ∨
  ∃ after fewer, removal.round len = .ok (after, true) ∧
    Between len starBehind after result fewer ∧ fewer < left

section

variable {len : Nat} {starBehind : Bool} {removal : Removal} {result : List Char × Bool}

theorem Removal.Advances.mono {left more : Nat}
    (advances : removal.Advances len starBehind result left) (fewer : left ≤ more) :
    removal.Advances len starBehind result more := by
  rcases advances with ended | ⟨after, left', goes, between, less⟩
  · exact .inl ended
  · exact .inr ⟨after, left', goes, between, Nat.lt_of_lt_of_le less fewer⟩

/-- The search for a slash begins in what is kept and goes on in the text. -/
theorem Outside.token {kept text behind : List Char}
    (holds : Outside len starBehind removal kept text behind result) :
    tokenAt removal.cells removal.s '/' =
      .ok ((Mode.text.search text).map (kept.length + ·)) := by
  have parts : removal.cells =
      kept.take removal.s ++ (kept.drop removal.s ++ text) ++ nul :: behind := by
    rw [holds.cells, List.append_nil, ← List.append_assoc, List.take_append_drop]
  have start : (kept.take removal.s).length = removal.s :=
    List.length_take_of_le holds.begun
  have free : Free nul (kept.drop removal.s ++ text) := by
    rw [free_append]
    exact ⟨fun member => holds.keptFree (List.mem_of_mem_drop member), holds.textFree⟩
  have found : tokenAt (kept.take removal.s ++ (kept.drop removal.s ++ text) ++ nul :: behind)
      (kept.take removal.s).length '/' = _ := tokenAt_append free behind '/'
  rw [← parts, start, holds.clean, Option.map_map] at found
  rw [found]
  congr 2
  funext position
  have begun := holds.begun
  simp only [Function.comp, List.length_drop]
  omega

/-- The search for a star goes on in the text. -/
theorem Loaded.token {kept gap text behind : List Char}
    (holds : Loaded len starBehind removal kept gap text behind)
    (place : removal.p = (kept ++ gap).length) :
    tokenAt removal.cells removal.p '*' =
      .ok ((Look.plain.search text).map ((kept ++ gap).length + ·)) := by
  rw [holds.cells, place, tokenAt_append holds.textFree]
  rfl

/-- Everything up to the slash that is found is kept. -/
theorem Outside.forward {kept text behind : List Char}
    (holds : Outside len starBehind removal kept text behind result) {position : Nat}
    (search : Mode.text.search text = some position) :
    ∃ before rest, text = before ++ '/' :: rest ∧
      Outside len starBehind removal (kept ++ before) ('/' :: rest) behind result := by
  have outside : Mode.text ≠ .comment := nofun
  rcases split_of_search outside search with ⟨before, rest, rfl, rfl, clean, same⟩
  have textFree := holds.textFree
  rw [free_append] at textFree
  refine ⟨before, rest, rfl, ?_⟩
  exact {
    cells := by
      rw [holds.cells]
      simp only [List.append_assoc, List.cons_append, List.nil_append]
    size := holds.size
    ended := holds.ended
    star := holds.star
    keptFree := free_append.mpr ⟨holds.keptFree, textFree.1⟩
    textFree := textFree.2
    begun := by
      rw [List.length_append]
      exact Nat.le_add_right_of_le holds.begun
    clean := by
      rw [List.drop_append_of_le_length holds.begun]
      exact clean_append holds.clean clean
    short := by
      have short := holds.short
      simp only [List.length_append] at short ⊢
      omega
    comment := holds.comment
    scanned := by
      have scanned := holds.scanned
      rw [same, Option.map_map] at scanned
      rw [List.length_append, ← putBehind_append]
      exact scanned }

/-- The round at a slash goes by the next character. -/
theorem Outside.outside_eq {kept rest behind : List Char}
    (holds : Outside len starBehind removal kept ('/' :: rest) behind result) :
    removal.round len = (match (rest ++ nul :: behind)[0]? with
      | some '/' => (poke kept.length nul removal.cells).map fun cells =>
          ({ removal with cells := cells }, false)
      | some '*' => .ok ({ removal with
          comment := true
          p := kept.length + 2
          t := some kept.length }, true)
      | _ => .ok ({ removal with s := kept.length + 1, t := some kept.length }, true)) := by
  have token := holds.token
  rw [Mode.search_slash] at token
  have next : removal.cells[kept.length + 1]? = (rest ++ nul :: behind)[0]? := by
    rw [holds.cells, List.append_nil, List.append_assoc,
      List.getElem?_append_right (Nat.le_add_right _ _), Nat.add_sub_cancel_left]
    rfl
  have outside : ¬removal.comment = true := by simp [holds.comment]
  rw [Removal.round, if_neg outside, Removal.outside, token, ← next]
  rfl

theorem Outside.lineComment {kept rest behind : List Char}
    (holds : Outside len starBehind removal kept ('/' :: '/' :: rest) behind result) :
    removal.Advances len starBehind result (rest.length + 2) := by
  have cells : removal.cells = kept ++ '/' :: ('/' :: rest ++ nul :: behind) := by
    rw [holds.cells, List.append_nil, List.append_assoc]
    rfl
  have ends : putBehind kept ([], false) = result := by
    have scanned := holds.scanned
    rw [scanText] at scanned
    exact Option.some.inj scanned
  left
  refine ⟨{ removal with cells := kept ++ nul :: ('/' :: rest ++ nul :: behind) }, ?_, ?_⟩
  · rw [holds.outside_eq, cells, poke_append]
    rfl
  · rw [cstring_append_nul holds.keptFree, holds.comment, ← ends]
    exact Prod.ext (List.append_nil kept).symm rfl

theorem Outside.opens {kept rest behind : List Char}
    (holds : Outside len starBehind removal kept ('/' :: '*' :: rest) behind result) :
    removal.Advances len starBehind result (rest.length + 2) := by
  have opened : Opened len starBehind
      { removal with comment := true, p := kept.length + 2, t := some kept.length }
      kept ['/', '*'] rest behind result :=
    { cells := by
        rw [holds.cells]
        simp only [List.append_assoc, List.cons_append, List.nil_append]
      size := holds.size
      ended := holds.ended
      star := holds.star
      keptFree := holds.keptFree
      textFree := (free_cons.mp (free_cons.mp holds.textFree).2).2
      begun := holds.begun
      clean := holds.clean
      short := by
        have short := holds.short
        simp only [List.length_cons, List.length_nil] at short ⊢
        omega
      comment := rfl
      place := by simp
      start := rfl
      scanned := by
        have scanned := holds.scanned
        rwa [scanText] at scanned }
  right
  refine ⟨_, rest.length, holds.outside_eq, .opened opened, ?_⟩
  omega

theorem Outside.slash {kept rest behind : List Char}
    (holds : Outside len starBehind removal kept ('/' :: rest) behind result)
    (line : rest.head? ≠ some '/') (star : rest.head? ≠ some '*') :
    removal.Advances len starBehind result (rest.length + 1) := by
  have goes : removal.round len =
      .ok ({ removal with s := kept.length + 1, t := some kept.length }, true) := by
    rw [holds.outside_eq]
    rcases rest with - | ⟨second, rest⟩
    · rfl
    · have notSlash : second ≠ '/' := fun same => line (congrArg some same)
      have notStar : second ≠ '*' := fun same => star (congrArg some same)
      simp [notSlash, notStar]
  have keeps : scanText len starBehind kept.length (.outside .text) ('/' :: rest) =
      (scanText len starBehind (kept.length + 1) (.outside .text) rest).map (putBehind ['/']) := by
    rcases rest with - | ⟨second, rest⟩
    · rfl
    · have notSlash : second ≠ '/' := fun same => line (congrArg some same)
      have notStar : second ≠ '*' := fun same => star (congrArg some same)
      rw [scanText.eq_def]
      simp [notSlash, notStar, Mode.next]
      rfl
  have outside : Outside len starBehind
      { removal with s := kept.length + 1, t := some kept.length } (kept ++ ['/']) rest behind
      result :=
    { cells := by
        rw [holds.cells]
        simp only [List.append_assoc, List.cons_append, List.nil_append]
      size := holds.size
      ended := holds.ended
      star := holds.star
      keptFree := free_append.mpr ⟨holds.keptFree, free_cons.mpr ⟨by decide, free_nil nul⟩⟩
      textFree := (free_cons.mp holds.textFree).2
      begun := by simp
      clean := by
        rw [List.drop_of_length_le (by simp)]
        exact clean_nil '/'
      short := by
        have short := holds.short
        simp only [List.length_append, List.length_cons, List.length_nil] at short ⊢
        omega
      comment := holds.comment
      scanned := by
        have scanned := holds.scanned
        rw [keeps, Option.map_map, putBehind_append] at scanned
        rw [List.length_append]
        exact scanned }
  right
  exact ⟨_, rest.length, goes, .outside outside, Nat.lt_succ_self _⟩

theorem Outside.round {kept text behind : List Char}
    (holds : Outside len starBehind removal kept text behind result) :
    removal.Advances len starBehind result text.length := by
  cases search : Mode.text.search text with
  | none =>
      have outside : Mode.text ≠ .comment := nofun
      have token := holds.token
      rw [search] at token
      have ends : putBehind kept (text, false) = result := by
        have scanned := holds.scanned
        rw [scanText_of_search_none outside search] at scanned
        exact Option.some.inj scanned
      left
      refine ⟨removal, ?_, ?_⟩
      · rw [Removal.round, holds.comment, if_neg Bool.false_ne_true, Removal.outside, token]
        rfl
      · rw [holds.cells, List.append_nil,
          cstring_append_nul (free_append.mpr ⟨holds.keptFree, holds.textFree⟩), holds.comment,
          ← ends]
        rfl
  | some position =>
      rcases holds.forward search with ⟨before, rest, rfl, further⟩
      rw [List.length_append]
      by_cases line : rest.head? = some '/'
      · rcases List.head?_eq_some_iff.mp line with ⟨rest, rfl⟩
        exact further.lineComment.mono (Nat.le_add_left _ before.length)
      by_cases star : rest.head? = some '*'
      · rcases List.head?_eq_some_iff.mp star with ⟨rest, rfl⟩
        exact further.opens.mono (Nat.le_add_left _ before.length)
      · exact (further.slash line star).mono (Nat.le_add_left _ before.length)

/-- The round at a star goes by the next character. -/
theorem inside_eq {kept gap rest behind : List Char} (comment : removal.comment = true)
    (cells : removal.cells = kept ++ gap ++ ('*' :: rest) ++ nul :: behind)
    (token : tokenAt removal.cells removal.p '*' = .ok (some (kept ++ gap).length)) :
    removal.round len =
      if (rest ++ nul :: behind)[0]? = some '/' then
        if len + removal.t.getD removal.p < (kept ++ gap).length then .error .outOfBounds
        else
          ((memcpy (removal.t.getD removal.p) (len + removal.t.getD removal.p -
            (kept ++ gap).length) (removal.cells.drop ((kept ++ gap).length + 2))
            removal.cells).bind
              (poke (len + removal.t.getD removal.p - (kept ++ gap).length) nul)).map fun cells =>
            ({ removal with
              comment := false, cells := cells, t := some (removal.t.getD removal.p) }, true)
      else .ok ({ removal with p := (kept ++ gap).length + 2 }, true) := by
  have next : removal.cells[(kept ++ gap).length + 1]? = (rest ++ nul :: behind)[0]? := by
    rw [cells, List.append_assoc, List.getElem?_append_right (Nat.le_add_right _ _),
      Nat.add_sub_cancel_left]
    rfl
  rw [Removal.round, if_pos comment, Removal.inside, token, ← next]
  rfl

theorem length_poke {position : Nat} {char : Char} {cells after : List Char}
    (written : poke position char cells = .ok after) : after.length = cells.length := by
  rw [poke] at written
  split at written
  · cases written
    exact List.length_set
  · cases written

/-- What stands behind a comment is moved to where it began. -/
theorem closes_eq {kept comment rest behind : List Char}
    (inside : removal.comment = true)
    (cells : removal.cells = kept ++ (comment ++ ['*', '/']) ++ rest ++ nul :: behind)
    (size : removal.cells.length = configMaxLine)
    (token : tokenAt removal.cells removal.p '*' = .ok (some (kept ++ comment).length))
    (start : removal.t.getD removal.p = kept.length)
    (short : kept.length + (comment ++ ['*', '/']).length + rest.length ≤ len)
    (room : len + kept.length + 2 ≤ configMaxLine) :
    ∃ count tail, removal.round len = .ok ({ removal with
        comment := false
        cells := kept ++ rest ++ nul :: (behind.take count ++ nul :: tail)
        t := some kept.length }, true) ∧
      (kept ++ rest ++ nul :: (behind.take count ++ nul :: tail)).length = configMaxLine := by
  have parts : removal.cells = kept ++ comment ++ ('*' :: '/' :: rest) ++ nul :: behind := by
    rw [cells]
    simp only [List.append_assoc, List.cons_append, List.nil_append]
  have round : removal.round len = _ := inside_eq inside parts token
  generalize whole : comment ++ ['*', '/'] = marked at cells short
  have marks : marked.length = comment.length + 2 := by
    rw [← whole, List.length_append]
    rfl
  have sizes := size
  rw [cells] at sizes
  simp only [List.length_append, List.length_cons] at sizes
  have space : len + kept.length + 2 ≤
      kept.length + marked.length + rest.length + 1 + behind.length := by omega
  rcases moveUp short (by omega) space with ⟨count, tail, moved⟩
  have behindMarks : (kept ++ comment).length + 2 = (kept ++ marked).length := by
    rw [List.length_append, List.length_append]
    omega
  have amount : len + kept.length - (kept ++ comment).length = len + 2 - marked.length := by
    rw [marks, List.length_append]
    omega
  have source : removal.cells.drop ((kept ++ comment).length + 2) = rest ++ nul :: behind := by
    rw [cells, behindMarks, List.append_assoc, List.drop_left]
  have enough : ¬len + kept.length < (kept ++ comment).length := by
    rw [List.length_append]
    omega
  have slash : ('/' :: rest ++ nul :: behind)[0]? = some '/' := rfl
  rw [if_pos slash, start, if_neg enough, amount, source, cells, moved] at round
  refine ⟨count, tail, round, ?_⟩
  rw [← size, cells]
  rcases copied : memcpy kept.length (len + 2 - marked.length) (rest ++ nul :: behind)
    (kept ++ marked ++ rest ++ nul :: behind) with fault | between
  · rw [copied] at moved
    cases moved
  · rw [copied] at moved
    exact (length_poke moved).trans (length_memcpy copied)

/-- A star at the end of the line takes the search behind the line. -/
theorem leaves_eq {kept gap behind : List Char}
    (inside : removal.comment = true)
    (cells : removal.cells = kept ++ gap ++ ['*'] ++ nul :: behind)
    (size : removal.cells.length = configMaxLine) (ended : nul ∈ behind)
    (free : Free '*' (cstring behind))
    (token : tokenAt removal.cells removal.p '*' = .ok (some (kept ++ gap).length))
    (lost : result.2 = true) : removal.Advances len starBehind result 1 := by
  have round : removal.round len = _ := inside_eq inside cells token
  have other : ([] ++ nul :: behind)[0]? ≠ some '/' := by
    intro same
    cases same
  rw [if_neg other] at round
  have past : tokenAt removal.cells ((kept ++ gap).length + 2) '*' = .ok none := by
    rcases free_or_eq_append_cons nul behind with absent | ⟨front, tail, frontFree, rfl⟩
    · exact absurd ended absent
    · have split : removal.cells = (kept ++ gap ++ ['*', nul]) ++ front ++ nul :: tail := by
        rw [cells]
        simp only [List.append_assoc, List.cons_append, List.nil_append]
      have place : (kept ++ gap).length + 2 = (kept ++ gap ++ ['*', nul]).length := by
        simp [Nat.add_assoc]
      rw [cstring_append_nul frontFree] at free
      rw [split, place, tokenAt_append frontFree, configNextToken, nextToken_of_free _ _ free]
      rfl
  right
  exact ⟨_, 0, round, .past inside past size lost, Nat.one_pos⟩

/-- Where no star is found the line is lost. -/
theorem lost_line {left : Nat} (inside : removal.comment = true)
    (none : tokenAt removal.cells removal.p '*' = .ok none)
    (size : removal.cells.length = configMaxLine) (lost : result.2 = true) :
    removal.Advances len starBehind result left := by
  have room : 0 < removal.cells.length := by
    rw [size]
    decide
  have settled : settle result = ([], true) := by
    rw [settle, lost]
    rfl
  left
  refine ⟨{ removal with cells := removal.cells.set 0 nul }, ?_, ?_⟩
  · rw [Removal.round, if_pos inside, Removal.inside, none]
    change (poke 0 nul removal.cells).map _ = _
    rw [poke, if_pos room]
    rfl
  · rw [settled, inside]
    rcases removal.cells with - | ⟨first, cells⟩
    · rfl
    · rfl

/-- A star that does not end the comment is passed with the character behind it. -/
theorem passes_eq {kept gap rest behind : List Char} {second : Char}
    (inside : removal.comment = true)
    (cells : removal.cells = kept ++ gap ++ ('*' :: second :: rest) ++ nul :: behind)
    (token : tokenAt removal.cells removal.p '*' = .ok (some (kept ++ gap).length))
    (notSlash : second ≠ '/') :
    removal.round len =
      .ok ({ removal with p := (kept ++ (gap ++ ['*', second])).length }, true) := by
  have round : removal.round len = _ := inside_eq inside cells token
  have place : (kept ++ (gap ++ ['*', second])).length = (kept ++ gap).length + 2 := by
    simp [Nat.add_assoc]
  rw [if_neg (by simpa using notSlash)] at round
  rw [place]
  exact round

/-- What is loaded when some of the text has been passed. -/
theorem Loaded.pass {kept gap rest behind : List Char} (before : List Char)
    (holds : Loaded len starBehind removal kept gap (before ++ rest) behind) (p : Nat) :
    Loaded len starBehind { removal with p := p } kept (gap ++ before) rest behind where
  cells := by
    rw [holds.cells]
    simp only [List.append_assoc]
  size := holds.size
  ended := holds.ended
  star := holds.star
  keptFree := holds.keptFree
  textFree := (free_append.mp holds.textFree).2
  begun := holds.begun
  clean := holds.clean
  short := by
    have short := holds.short
    simp only [List.length_append] at short ⊢
    omega

theorem Loaded.starless {kept gap text behind : List Char}
    (holds : Loaded len starBehind removal kept gap text behind) (none : starBehind = false) :
    Free '*' (cstring behind) := by
  intro member
  rw [holds.star member] at none
  cases none

/-- The comment of the line ends: what follows it is put behind what is kept. -/
theorem Opened.close {kept gap before rest behind : List Char}
    (holds : Opened len starBehind removal kept gap (before ++ '*' :: '/' :: rest) behind result)
    (token : tokenAt removal.cells removal.p '*' = .ok (some (kept ++ (gap ++ before)).length))
    (scanned : (scanText len starBehind kept.length (.inside .plain) ('*' :: '/' :: rest)).map
      (putBehind kept) = some result) :
    removal.Advances len starBehind result (rest.length + 1) := by
  have passed := holds.toLoaded.pass before removal.p
  rw [scanText] at scanned
  split at scanned
  · rename_i room
    have start : removal.t.getD removal.p = kept.length := by rw [holds.start]; rfl
    have cells : removal.cells =
        kept ++ (gap ++ before ++ ['*', '/']) ++ rest ++ nul :: behind := by
      rw [holds.cells]
      simp only [List.append_assoc, List.cons_append, List.nil_append]
    have short : kept.length + (gap ++ before ++ ['*', '/']).length + rest.length ≤ len := by
      have short := holds.short
      simp only [List.length_append, List.length_cons, List.length_nil] at short ⊢
      omega
    rcases closes_eq holds.comment cells holds.size token start short room with
      ⟨count, tail, round, size⟩
    have outside : Outside len starBehind
        { removal with
          comment := false
          cells := kept ++ rest ++ nul :: (behind.take count ++ nul :: tail)
          t := some kept.length }
        kept rest (behind.take count ++ nul :: tail) result :=
      { cells := by rw [List.append_nil]
        size := size
        ended := by simp
        star := fun member => holds.star (mem_cstring_take member)
        keptFree := holds.keptFree
        textFree := (free_cons.mp (free_cons.mp passed.textFree).2).2
        begun := holds.begun
        clean := holds.clean
        short := by
          simp only [List.length_append, List.length_nil] at short ⊢
          omega
        comment := rfl
        scanned := scanned }
    right
    exact ⟨_, rest.length, round, .outside outside, Nat.lt_succ_self _⟩
  · cases scanned

/-- A star in the comment of the line is passed. -/
theorem Opened.pass {kept gap before rest behind : List Char} {second : Char}
    (holds : Opened len starBehind removal kept gap (before ++ '*' :: second :: rest) behind result)
    (scanned : (scanText len starBehind kept.length (.inside .plain) rest).map (putBehind kept) =
      some result) :
    Opened len starBehind
      { removal with p := (kept ++ (gap ++ before ++ ['*', second])).length } kept
      (gap ++ before ++ ['*', second]) rest behind result :=
  { (holds.toLoaded.pass before removal.p).pass ['*', second] _ with
    comment := holds.comment
    place := rfl
    start := holds.start
    scanned := scanned }

theorem Opened.round {kept gap text behind : List Char}
    (holds : Opened len starBehind removal kept gap text behind result) :
    removal.Advances len starBehind result text.length := by
  have searching : Look.plain ≠ .behindStar := nofun
  have token := holds.token holds.place
  have scanned := holds.scanned
  cases search : Look.plain.search text with
  | none =>
      rw [search] at token
      rw [(scan_of_search_none searching search len starBehind).1] at scanned
      exact lost_line holds.comment token holds.size (congrArg Prod.snd (Option.some.inj scanned)).symm
  | some position =>
      rw [search] at token
      rcases scan_of_search searching search len starBehind with
        ⟨before, rest, rfl, rfl, same, -⟩
      rw [same] at scanned
      rw [Option.map_some, ← List.length_append, List.append_assoc] at token
      have passed := holds.toLoaded.pass before removal.p
      rw [List.length_append]
      rcases rest with - | ⟨second, rest⟩
      · -- the star is the last character
        rw [(scan_star len starBehind).1] at scanned
        split at scanned
        · cases scanned
        · rename_i none
          have starless := passed.starless (Bool.not_eq_true _ ▸ none)
          exact (leaves_eq holds.comment passed.cells holds.size holds.ended starless token
            (congrArg Prod.snd (Option.some.inj scanned)).symm).mono (Nat.le_add_left _ _)
      by_cases slash : second = '/'
      · subst slash
        exact (holds.close token scanned).mono (by simp only [List.length_cons]; omega)
      · rw [(scan_pass slash len starBehind rest).1] at scanned
        right
        refine ⟨_, rest.length, passes_eq holds.comment passed.cells token slash,
          .opened (holds.pass scanned), ?_⟩
        simp only [List.length_cons]
        omega

/-- The comment of an earlier line ends: what follows it is put behind the last star that was
passed. -/
theorem Continued.close {gap before rest behind : List Char}
    (holds : Continued len starBehind removal gap (before ++ '*' :: '/' :: rest) behind result)
    (token : tokenAt removal.cells removal.p '*' = .ok (some (gap ++ before).length))
    (scanned : scanComment len starBehind (gap ++ (before ++ '*' :: '/' :: rest)) gap.length
      (gap.length + before.length) .plain ('*' :: '/' :: rest) = some result) :
    removal.Advances len starBehind result (gap.length + rest.length + 1) := by
  have free := free_append.mp holds.textFree
  rw [scanComment] at scanned
  split at scanned
  · rename_i room
    have start : removal.t.getD removal.p = gap.length := by
      rw [holds.start, holds.place]
      rfl
    have cells : removal.cells = gap ++ (before ++ ['*', '/']) ++ rest ++ nul :: behind := by
      rw [holds.cells]
      simp only [List.append_assoc, List.cons_append, List.nil_append]
    have short : gap.length + (before ++ ['*', '/']).length + rest.length ≤ len := by
      have short := holds.short
      simp only [List.length_append, List.length_cons, List.length_nil] at short ⊢
      omega
    rcases closes_eq holds.comment cells holds.size token start short room with
      ⟨count, tail, round, size⟩
    rw [List.take_left] at scanned
    have outside : Outside len starBehind
        { removal with
          comment := false
          cells := gap ++ rest ++ nul :: (behind.take count ++ nul :: tail)
          t := some gap.length }
        [] (gap ++ rest) (behind.take count ++ nul :: tail) result :=
      { cells := rfl
        size := size
        ended := by simp
        star := fun member => holds.star (mem_cstring_take member)
        keptFree := free_nil nul
        textFree := free_append.mpr ⟨holds.gapFree, (free_cons.mp (free_cons.mp free.2).2).2⟩
        begun := holds.begun
        clean := holds.clean
        short := by
          simp only [List.length_append, List.length_nil] at short ⊢
          omega
        comment := rfl
        scanned := by
          change (scanText len starBehind 0 (.outside .text) (gap ++ rest)).map _ = _
          rw [scanned]
          rfl }
    right
    refine ⟨_, (gap ++ rest).length, round, .outside outside, ?_⟩
    rw [List.length_append]
    exact Nat.lt_succ_self _
  · cases scanned

/-- A star in the comment of an earlier line is passed. -/
theorem Continued.pass {gap before rest behind : List Char} {second : Char}
    (holds : Continued len starBehind removal gap (before ++ '*' :: second :: rest) behind result)
    (scanned : scanComment len starBehind (gap ++ (before ++ '*' :: second :: rest))
      (gap.length + before.length + 2) (gap.length + before.length + 2) .plain rest =
        some result) :
    Continued len starBehind { removal with p := (gap ++ before ++ ['*', second]).length }
      (gap ++ before ++ ['*', second]) rest behind result :=
  { (holds.toLoaded.pass before removal.p).pass ['*', second] _ with
    comment := holds.comment
    place := rfl
    start := holds.start
    gapFree := by
      have free := free_append.mp holds.textFree
      have ends := free_cons.mp (free_cons.mp free.2).2
      exact free_append.mpr ⟨free_append.mpr ⟨holds.gapFree, free.1⟩,
        free_cons.mpr ⟨(free_cons.mp free.2).1, free_cons.mpr ⟨ends.1, free_nil nul⟩⟩⟩
    scanned := by
      have line : gap ++ before ++ ['*', second] ++ rest =
          gap ++ (before ++ '*' :: second :: rest) := by
        simp only [List.append_assoc, List.cons_append, List.nil_append]
      have size : (gap ++ before ++ ['*', second]).length = gap.length + before.length + 2 := by
        simp [Nat.add_assoc]
      rw [line, size]
      exact scanned }

theorem Continued.round {gap text behind : List Char}
    (holds : Continued len starBehind removal gap text behind result) :
    removal.Advances len starBehind result (commentRounds gap.length gap.length .plain text) := by
  have searching : Look.plain ≠ .behindStar := nofun
  have token := holds.token holds.place
  have scanned := holds.scanned
  cases search : Look.plain.search text with
  | none =>
      rw [search] at token
      rw [(scan_of_search_none searching search len starBehind).2] at scanned
      exact lost_line holds.comment token holds.size (congrArg Prod.snd (Option.some.inj scanned)).symm
  | some position =>
      rw [search] at token
      rcases scan_of_search searching search len starBehind with
        ⟨before, rest, rfl, rfl, -, same, rounds⟩
      rw [same] at scanned
      rw [Option.map_some, ← List.length_append, List.append_assoc] at token
      have passed := holds.toLoaded.pass before removal.p
      rw [rounds]
      rcases rest with - | ⟨second, rest⟩
      · -- the star is the last character
        rw [(scan_star len starBehind).2] at scanned
        split at scanned
        · cases scanned
        · rename_i none
          have starless := passed.starless (Bool.not_eq_true _ ▸ none)
          exact (leaves_eq holds.comment passed.cells holds.size holds.ended starless token
            (congrArg Prod.snd (Option.some.inj scanned)).symm).mono (Nat.le_add_right 1 _)
      by_cases slash : second = '/'
      · subst slash
        rw [List.nil_append] at token
        rw [commentRounds]
        exact (holds.close token scanned).mono (by omega)
      · rcases scan_pass slash len starBehind rest with ⟨-, samePass, passRounds⟩
        rw [samePass] at scanned
        right
        refine ⟨_, _, passes_eq holds.comment passed.cells token slash,
          .continued (holds.pass scanned), ?_⟩
        have size : (gap ++ before ++ ['*', second]).length = gap.length + before.length + 2 := by
          simp [Nat.add_assoc]
        rw [size, passRounds]
        omega

/-- The step: what one round does between the rounds. -/
theorem Between.round {left : Nat} (between : Between len starBehind removal result left) :
    removal.Advances len starBehind result left := by
  cases between with
  | outside outside => exact outside.round
  | opened opened => exact opened.round
  | continued continued => exact continued.round
  | past comment none size lost => exact lost_line comment none size lost

/-- The loop ends with the result that the line comes to. -/
theorem Between.run {left rounds : Nat}
    (between : Between len starBehind removal result left) (enough : left < rounds) :
    ∃ after, Removal.run len rounds removal = some (.ok after) ∧
      (cstring after.cells, after.comment) = settle result := by
  induction rounds generalizing removal left with
  | zero => cases enough
  | succ rounds induction =>
      rw [Removal.run]
      rcases between.round with ⟨after, ended, result⟩ | ⟨after, fewer, goes, between, less⟩
      · rw [ended]
        exact ⟨after, rfl, result⟩
      · rw [goes]
        exact induction between (by omega)

end

theorem cstring_line (line : Line) : cstring line.cells = line.text :=
  cstring_append_nul line.free _

/-- At the start of a line. -/
theorem between_line {comment starBehind : Bool} {line : Line} {result : List Char × Bool}
    (star : '*' ∈ cstring line.behind → starBehind = true)
    (scanned : (if comment then scanComment line.text.length starBehind line.text 0 0 .plain
      line.text else scanText line.text.length starBehind 0 (.outside .text) line.text) =
        some result) :
    Between line.text.length starBehind ⟨comment, line.cells, 0, 0, none⟩ result
      (if comment then commentRounds 0 0 .plain line.text else line.text.length) := by
  have loaded : Loaded line.text.length starBehind ⟨comment, line.cells, 0, 0, none⟩ [] []
      line.text line.behind :=
    { cells := rfl
      size := by
        have size := line.size
        simp only [Line.cells, List.length_append, List.length_cons]
        omega
      ended := line.ended
      star := star
      keptFree := free_nil nul
      textFree := line.free
      begun := Nat.le_refl _
      clean := clean_nil '/'
      short := by simp }
  cases comment with
  | false =>
      have text : scanText line.text.length starBehind 0 (.outside .text) line.text = some result :=
        scanned
      have outside : Outside line.text.length starBehind ⟨false, line.cells, 0, 0, none⟩ []
          line.text line.behind result :=
        { loaded with
          comment := rfl
          scanned := by
            change (scanText line.text.length starBehind 0 (.outside .text) line.text).map _ = _
            rw [text]
            rfl }
      exact .outside outside
  | true =>
      have continued : Continued line.text.length starBehind ⟨true, line.cells, 0, 0, none⟩ []
          line.text line.behind result :=
        { loaded with
          comment := rfl
          place := rfl
          start := rfl
          gapFree := free_nil nul
          scanned := scanned }
      exact .continued continued

/-- The function does what the scan of the line says. -/
theorem configRemoveComments_scan {comment starBehind : Bool} {line : Line}
    {result : List Char × Bool} (star : '*' ∈ cstring line.behind → starBehind = true)
    (scanned : scanLine starBehind comment line.text = some result) {rounds : Nat}
    (enough : (if comment then commentRounds 0 0 .plain line.text else line.text.length) < rounds) :
    ∃ cells, configRemoveComments rounds comment line.cells = some (.ok (result.2, cells)) ∧
      cstring cells = result.1 := by
  rcases Option.map_eq_some_iff.mp scanned with ⟨unsettled, found, rfl⟩
  rcases (between_line star found).run enough with ⟨after, ran, final⟩
  refine ⟨after.cells, ?_, congrArg Prod.fst final⟩
  rw [configRemoveComments, cstring_line, ran, ← final]
  rfl

/-- A line without a slash outside quotes stays as it is. -/
theorem configRemoveComments_of_none {line : Line} (absent : configNextToken line.text '/' = none)
    (rounds : Nat) :
    configRemoveComments (rounds + 1) false line.cells = some (.ok (false, line.cells)) := by
  have token : tokenAt line.cells 0 '/' = .ok none := by
    have found : tokenAt ([] ++ line.text ++ nul :: line.behind) 0 '/' = _ :=
      tokenAt_append line.free line.behind '/'
    rw [absent] at found
    exact found
  rw [configRemoveComments, Removal.run, Removal.round, if_neg Bool.false_ne_true,
    Removal.outside, token]
  rfl

theorem Removal.run_le {len : Nat} {removal : Removal} {rounds more : Nat}
    {result : Checked Removal} (ran : Removal.run len rounds removal = some result)
    (enough : rounds ≤ more) : Removal.run len more removal = some result := by
  induction rounds generalizing removal more with
  | zero => cases ran
  | succ rounds induction =>
      cases more with
      | zero => cases enough
      | succ more =>
          rw [Removal.run] at ran ⊢
          rcases step : removal.round len with fault | ⟨after, goesOn⟩
          · rw [step] at ran
            exact ran
          · rw [step] at ran
            cases goesOn with
            | false => exact ran
            | true => exact induction ran (Nat.le_of_succ_le_succ enough)

/-- A result that was reached stays with more rounds. -/
theorem configRemoveComments_le {rounds more : Nat} {comment : Bool} {cells : List Char}
    {result : Checked (Bool × List Char)}
    (removed : configRemoveComments rounds comment cells = some result) (enough : rounds ≤ more) :
    configRemoveComments more comment cells = some result := by
  rw [configRemoveComments, Option.map_eq_some_iff] at removed
  rcases removed with ⟨after, ran, rfl⟩
  rw [configRemoveComments, Removal.run_le ran enough]
  rfl

end Vpopmail.Config

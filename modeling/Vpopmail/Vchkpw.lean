import Vpopmail.Foundation.Copying

/-! # The input of vchkpw

`read_user_pass` collects what arrives on descriptor 3 and copies three fields out of it. A
field without a terminator ends at the zeros that the buffer has been filled with.
-/

namespace Vpopmail.Vchkpw

open Text Buffer

/-- The size of `TheName`, `ThePass`, `TheChallenge` and `TheDomain`. -/
def authSize : Nat := 156

def authIncSize : Nat := 155

/-- `memset(buffer, 0, AUTH_SIZE)`. -/
def cleared : List Char := List.replicate authSize nul

/-! ## Reading -/

/-- What `read` finds: some bytes, which are cut to the room there is, or an error. At the
end of the input there is nothing. -/
inductive ReadResult
  | bytes (chunk : List Char)
  | failed

/-- The loop that reads: `i` and `TheDomain`, or nothing after an error. Once a chunk has been
cut there is no room for another one. -/
def readLoop : List ReadResult → (i : Nat) → List Char → Checked (Option (Nat × List Char))
  | [], i, theDomain => .ok (some (i, theDomain))
  | .failed :: rest, i, theDomain =>
      if i < authSize then .ok none else readLoop rest i theDomain
  | .bytes chunk :: rest, i, theDomain =>
      if i < authSize then
        let got := chunk.take (authSize - i - 1)
        if got = [] then .ok (some (i, theDomain))
        else
          (memcpy i got.length got theDomain).bind fun theDomain =>
            readLoop rest (i + got.length) theDomain
      else .ok (some (i, theDomain))

/-! ## Copying the fields -/

/-- `TheDomain[l]`. -/
def fetch (l : Nat) (theDomain : List Char) : Checked Char :=
  match theDomain[l]? with
  | some char => .ok char
  | none => .error .outOfBounds

/-- Where a loop stops, the buffer it has filled, and the cells of `TheDomain` it has read. -/
structure Copied where
  l : Nat
  target : List Char
  touched : List Nat
  deriving DecidableEq

/-- A loop that copies a field, for the rounds until `l` is `AUTH_INC_SIZE`. -/
def copyField (theDomain : List Char) (i : Nat) :
    (rounds l j : Nat) → (target : List Char) → Checked Copied
  | 0, l, _, target => .ok ⟨l, target, []⟩
  | rounds + 1, l, j, target =>
      (fetch l theDomain).bind fun char =>
        (poke j char target).bind fun target =>
          if char = nul then .ok ⟨l, target, [l]⟩
          else if l = i then .ok ⟨l, target, [l]⟩
          else
            (copyField theDomain i rounds (l + 1) (j + 1) target).map fun copied =>
              { copied with touched := l :: copied.touched }

/-- A loop from its start, into a buffer of zeros. -/
def copyFrom (theDomain : List Char) (i l : Nat) : Checked Copied :=
  copyField theDomain i (authIncSize - l) l 0 cleared

/-- What `read_user_pass` leaves, and the code it exits with. -/
structure UserPass where
  theName : List Char
  thePass : List Char
  theChallenge : List Char
  theDomain : List Char
  touched : List Nat
  exit : Option Nat
  deriving DecidableEq

/-- The checks behind the loops. -/
def exitCode (theName thePass : List Char) : Option Nat :=
  if theName.head? = some nul then some 12
  else if thePass.head? = some nul then some 13
  else none

/-- `read_user_pass`, which exits with 11 after an error. -/
def readUserPass (reads : List ReadResult) : Checked (Except Nat UserPass) :=
  (readLoop reads 0 cleared).bind fun received =>
    match received with
    | none => .ok (.error 11)
    | some (i, theDomain) =>
        (copyFrom theDomain i 0).bind fun name =>
          (copyFrom theDomain i (name.l + 1)).bind fun pass =>
            (copyFrom theDomain i (pass.l + 1)).map fun challenge => .ok
              { theName := name.target
                thePass := pass.target
                theChallenge := challenge.target
                theDomain := theDomain
                touched := name.touched ++ pass.touched ++ challenge.touched
                exit := exitCode name.target pass.target }

/-! ## Fields of the input -/

/-- A text at the front of a buffer of zeros. -/
def inBuffer (text : List Char) : List Char := text ++ List.replicate (authSize - text.length) nul

/-- What is behind the first field. -/
def behindField (input : List Char) : List Char := (cut nul input).2.getD []

/-- The fields of an input, which are separated by zeros. -/
def fieldOf (number : Nat) (input : List Char) : List Char :=
  cstring (behindField^[number] input)

theorem behindField_nul (rest : List Char) : behindField (nul :: rest) = rest := by
  simp [behindField, cut]

theorem behindField_cons {char : Char} (other : char ≠ nul) (rest : List Char) :
    behindField (char :: rest) = behindField rest := by
  simp [behindField, cut, other]

theorem cstring_cons {char : Char} (other : char ≠ nul) (rest : List Char) :
    cstring (char :: rest) = char :: cstring rest := by
  simp [cstring, other]

theorem cstring_nul (rest : List Char) : cstring (nul :: rest) = [] := by
  simp [cstring]

/-! ## The loops -/

/-- All chunks of an input that fits are collected. -/
theorem readLoop_eq {chunks : List (List Char)} (proper : ∀ chunk ∈ chunks, chunk ≠ [])
    {before : List Char} (fits : (before ++ chunks.flatten).length < authSize) :
    readLoop (chunks.map .bytes) before.length (inBuffer before) =
      .ok (some ((before ++ chunks.flatten).length, inBuffer (before ++ chunks.flatten))) := by
  induction chunks generalizing before with
  | nil => rw [List.flatten_nil, List.append_nil, List.map_nil, readLoop]
  | cons chunk chunks induction =>
      have nonempty := proper chunk List.mem_cons_self
      have whole : before ++ (chunk :: chunks).flatten = (before ++ chunk) ++ chunks.flatten := by
        rw [List.flatten_cons, List.append_assoc]
      have size := fits
      rw [List.length_append, List.flatten_cons, List.length_append] at size
      have kept : chunk.take (authSize - before.length - 1) = chunk :=
        List.take_of_length_le (by omega)
      have room : before.length < authSize := by omega
      have zeros : inBuffer before = before ++ (List.replicate chunk.length nul ++
          List.replicate (authSize - (before ++ chunk).length) nul) := by
        rw [inBuffer, List.replicate_append_replicate, List.length_append]
        congr 2
        omega
      have stored : memcpy before.length chunk.length chunk (inBuffer before) =
          .ok (inBuffer (before ++ chunk)) := by
        rw [zeros, memcpy_append before chunk _ List.length_replicate, inBuffer,
          List.append_assoc]
      have behind : ((before ++ chunk) ++ chunks.flatten).length < authSize := by
        rw [← whole]
        exact fits
      have later := induction (fun other member => proper other (List.mem_cons_of_mem _ member))
        behind
      rw [List.map_cons, readLoop, if_pos room]
      simp only [kept, if_neg nonempty, stored, Except.bind]
      rw [whole, ← later, List.length_append]

section Copy

variable {input : List Char}

theorem fetch_inside {l : Nat} {char : Char} {rest : List Char}
    (here : input.drop l = char :: rest) : fetch l (inBuffer input) = .ok char := by
  have inside : l < input.length := by
    have positive := congrArg List.length here
    rw [List.length_drop, List.length_cons] at positive
    omega
  have found : input[l]? = some char := by
    rw [← List.head?_drop, here]
    rfl
  rw [fetch, inBuffer, List.getElem?_append_left inside, found]

theorem fetch_beyond {l : Nat} (beyond : input.length ≤ l) (inside : l < authSize) :
    (inBuffer input)[l]? = some nul := by
  rw [inBuffer, List.getElem?_append_right beyond, List.getElem?_replicate]
  exact if_pos (by omega)

/-- A loop copies the field it starts in and stops at its end, having read one cell behind the
input at most. -/
theorem copyField_eq (fits : input.length < authSize) {rounds l : Nat} {written : List Char}
    (counted : rounds = authIncSize - l) (behind : written.length ≤ l) :
    ∃ copied, copyField (inBuffer input) input.length rounds l written.length
        (inBuffer written) = .ok copied ∧
      copied.target = inBuffer (written ++ cstring (input.drop l)) ∧
      input.drop (copied.l + 1) = behindField (input.drop l) ∧
      copied.l ≤ max l input.length ∧
      ∀ position ∈ copied.touched, input.length ≤ position →
        position ≤ max l input.length ∧ position < authSize := by
  have sizes : authSize = authIncSize + 1 := rfl
  induction rounds generalizing l written with
  | zero =>
      have past : input.drop l = [] := List.drop_of_length_le (by omega)
      have later : input.drop (l + 1) = [] := List.drop_of_length_le (by omega)
      refine ⟨⟨l, inBuffer written, []⟩, rfl, ?_, ?_, Nat.le_max_left _ _, List.forall_mem_nil _⟩
      · rw [past]
        exact congrArg inBuffer (List.append_nil written).symm
      · rw [past]
        exact later
  | succ rounds induction =>
      have cell : inBuffer written =
          written ++ nul :: List.replicate (authSize - (written.length + 1)) nul := by
        have left : authSize - written.length = authSize - (written.length + 1) + 1 := by omega
        rw [inBuffer, left, List.replicate_succ]
      have stays : poke written.length nul (inBuffer written) = .ok (inBuffer written) := by
        rw [cell]
        exact poke_append nul nul _
      cases here : input.drop l with
      | nil =>
          have beyond : input.length ≤ l := List.drop_eq_nil_iff.mp here
          have zero : fetch l (inBuffer input) = .ok nul := by
            rw [fetch, fetch_beyond beyond (by omega)]
          have later : input.drop (l + 1) = [] := List.drop_of_length_le (by omega)
          refine ⟨⟨l, inBuffer written, [l]⟩, ?_, ?_, ?_, Nat.le_max_left _ _, ?_⟩
          · rw [copyField, zero]
            simp only [Except.bind, stays]
            exact if_pos trivial
          · exact congrArg inBuffer (List.append_nil written).symm
          · exact later
          · intro position member _
            rw [List.mem_singleton.mp member]
            exact ⟨Nat.le_max_left _ _, by omega⟩
      | cons char rest =>
          have inside : l < input.length := by
            have positive := congrArg List.length here
            rw [List.length_drop, List.length_cons] at positive
            omega
          have next : input.drop (l + 1) = rest := by
            rw [← List.drop_drop, here]
            rfl
          have found := fetch_inside here
          by_cases ended : char = nul
          · refine ⟨⟨l, inBuffer written, [l]⟩, ?_, ?_, ?_, Nat.le_max_left _ _, ?_⟩
            · rw [copyField, found]
              simp only [Except.bind, ended, stays]
              exact if_pos trivial
            · rw [ended, cstring_nul, List.append_nil]
            · rw [ended, behindField_nul]
              exact next
            · intro position member outside
              rw [List.mem_singleton.mp member] at outside
              omega
          · have stored : poke written.length char (inBuffer written) =
                .ok (inBuffer (written ++ [char])) := by
              have size : (written ++ [char]).length = written.length + 1 := by simp
              rw [cell, poke_append, inBuffer, size, List.append_assoc]
              rfl
            have longer : (written ++ [char]).length ≤ l + 1 := by
              rw [List.length_append, List.length_singleton]
              omega
            rcases induction (show rounds = authIncSize - (l + 1) by omega) longer with
              ⟨copied, ran, target, stops, reach, touched⟩
            have same : max (l + 1) input.length = max l input.length := by omega
            rw [same] at reach touched
            refine ⟨{ copied with touched := l :: copied.touched }, ?_, ?_, ?_, reach, ?_⟩
            · rw [List.length_append, List.length_singleton] at ran
              rw [copyField, found]
              simp only [Except.bind, stored]
              rw [if_neg ended, if_neg (Nat.ne_of_lt inside), ran]
              rfl
            · rw [cstring_cons ended]
              rw [next, List.append_assoc] at target
              exact target
            · rw [behindField_cons ended, ← next]
              exact stops
            · intro position member outside
              rcases List.mem_cons.mp member with rfl | later
              · omega
              · exact touched position later outside

theorem copyFrom_eq (fits : input.length < authSize) (l : Nat) :
    ∃ copied, copyFrom (inBuffer input) input.length l = .ok copied ∧
      copied.target = inBuffer (cstring (input.drop l)) ∧
      input.drop (copied.l + 1) = behindField (input.drop l) ∧
      copied.l ≤ max l input.length ∧
      ∀ position ∈ copied.touched, input.length ≤ position →
        position ≤ max l input.length ∧ position < authSize := by
  have start : ([] : List Char).length ≤ l := Nat.zero_le l
  exact copyField_eq fits rfl start

end Copy

/-! ## Divisions of an input -/

/-- The three fields of the input and nothing else are in the buffers. -/
structure Yields (input : List Char) (yielded : UserPass) : Prop where
  theName : yielded.theName = inBuffer (fieldOf 0 input)
  thePass : yielded.thePass = inBuffer (fieldOf 1 input)
  theChallenge : yielded.theChallenge = inBuffer (fieldOf 2 input)
  theDomain : yielded.theDomain = inBuffer input

theorem fieldOf_plain (number : Nat) (input : List Char) : Free nul (fieldOf number input) :=
  free_takeWhile_ne nul _

/-- The string in a buffer is the field. -/
theorem cstring_inBuffer {text : List Char} (plain : Free nul text)
    (room : text.length < authSize) : cstring (inBuffer text) = text := by
  have left : authSize - text.length = authSize - text.length - 1 + 1 := by omega
  rw [inBuffer, left, List.replicate_succ, cstring_append_nul plain]

theorem length_fieldOf_le (number : Nat) (input : List Char) :
    (fieldOf number input).length ≤ input.length := by
  induction number generalizing input with
  | zero => exact (List.takeWhile_sublist _).length_le
  | succ number induction =>
      have shorter : (behindField input).length ≤ input.length := by
        rw [behindField, cut]
        cases left : input.dropWhile (· ≠ nul) with
        | nil => exact Nat.zero_le _
        | cons head rest =>
            have whole := (List.dropWhile_sublist (l := input) (fun char => decide (char ≠ nul))).length_le
            rw [left, List.length_cons] at whole
            exact Nat.le_of_succ_le whole
      exact (induction (behindField input)).trans shorter

/-- However an input that fits is divided, the fields are those of the whole of it, and what
is read behind it are three of the zeros at most. -/
theorem readUserPass_splits {chunks : List (List Char)} (proper : ∀ chunk ∈ chunks, chunk ≠ [])
    (fits : chunks.flatten.length < authSize) :
    ∃ yielded, readUserPass (chunks.map .bytes) = .ok (.ok yielded) ∧
      Yields chunks.flatten yielded ∧
      cstring yielded.theName = fieldOf 0 chunks.flatten ∧
      cstring yielded.thePass = fieldOf 1 chunks.flatten ∧
      cstring yielded.theChallenge = fieldOf 2 chunks.flatten ∧
      ∀ position ∈ yielded.touched, chunks.flatten.length ≤ position →
        position ≤ chunks.flatten.length + 2 ∧ yielded.theDomain[position]? = some nul := by
  have received : readLoop (chunks.map .bytes) 0 (inBuffer []) =
      .ok (some (chunks.flatten.length, inBuffer chunks.flatten)) := by
    have whole : ([] ++ chunks.flatten).length < authSize := fits
    exact readLoop_eq proper whole
  generalize chunks.flatten = input at fits received ⊢
  rcases copyFrom_eq fits 0 with ⟨name, nameRan, nameText, nameEnd, nameStop, nameTouched⟩
  rcases copyFrom_eq fits (name.l + 1) with
    ⟨pass, passRan, passText, passEnd, passStop, passTouched⟩
  rcases copyFrom_eq fits (pass.l + 1) with
    ⟨challenge, challengeRan, challengeText, _, _, challengeTouched⟩
  rw [nameEnd, List.drop_zero] at passText passEnd
  rw [passEnd] at challengeText
  have strings : ∀ number, cstring (inBuffer (fieldOf number input)) = fieldOf number input := by
    intro number
    have short := length_fieldOf_le number input
    exact cstring_inBuffer (fieldOf_plain number input) (by omega)
  have yields : Yields input
      { theName := name.target
        thePass := pass.target
        theChallenge := challenge.target
        theDomain := inBuffer input
        touched := name.touched ++ pass.touched ++ challenge.touched
        exit := exitCode name.target pass.target } :=
    ⟨nameText, passText, challengeText, rfl⟩
  refine ⟨_, ?_, yields, ?_, ?_, ?_, ?_⟩
  · have start : inBuffer [] = cleared := rfl
    rw [start] at received
    rw [readUserPass]
    simp only [received, Except.bind, nameRan, passRan, challengeRan]
    rfl
  · rw [yields.theName, strings]
  · rw [yields.thePass, strings]
  · rw [yields.theChallenge, strings]
  · intro position member outside
    have near : position ≤ input.length + 2 ∧ position < authSize := by
      rcases List.mem_append.mp member with early | third
      · rcases List.mem_append.mp early with first | second
        · have bound := nameTouched position first outside
          omega
        · have bound := passTouched position second outside
          omega
      · have bound := challengeTouched position third outside
        omega
    exact ⟨near.1, fetch_beyond outside near.2⟩

/-- Three fields that arrive in two pieces. -/
theorem readUserPass_splits_pieces : ∃ yielded,
    readUserPass [.bytes ['a', nul, 'b'], .bytes ['c', nul, 'd']] = .ok (.ok yielded) ∧
      cstring yielded.thePass = ['b', 'c'] := by
  have proper : ∀ chunk ∈ [['a', nul, 'b'], ['c', nul, 'd']], chunk ≠ [] := by decide
  rcases readUserPass_splits proper (by decide) with ⟨yielded, ran, _, _, pass, _⟩
  exact ⟨yielded, ran, pass.trans (by decide)⟩

/-- Without a terminator the cell behind the input is read. -/
theorem readUserPass_reads_beyond :
    ¬∀ chunks : List (List Char), (∀ chunk ∈ chunks, chunk ≠ []) →
      chunks.flatten.length < authSize →
      ∃ yielded, readUserPass (chunks.map .bytes) = .ok (.ok yielded) ∧
        Yields chunks.flatten yielded ∧
        ∀ position ∈ yielded.touched, position < chunks.flatten.length := by
  intro within
  rcases within [['a', 'b']] (by decide) (by decide) with ⟨yielded, ran, _, bounded⟩
  have touched : (readUserPass [.bytes ['a', 'b']]).toOption.bind (·.toOption.map (·.touched)) =
      some [0, 1, 2, 3, 4] := by
    decide +kernel
  have same : yielded.touched = [0, 1, 2, 3, 4] := by
    rw [List.map_cons, List.map_nil] at ran
    rw [ran] at touched
    exact Option.some.inj touched
  have beyond := bounded 2 (by rw [same]; decide)
  exact absurd beyond (by decide)

end Vpopmail.Vchkpw

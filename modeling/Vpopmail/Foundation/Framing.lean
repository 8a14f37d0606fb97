import Mathlib.Data.List.Basic

/-! # Framing of a byte stream

A framing takes one token after the other off the front of a stream. Once it has
seen enough to take a token or to refuse the stream, bytes that arrive later make
no difference; so a stream decodes the same way in however many pieces it is read.
-/

namespace Vpopmail.Wire

variable {Byte Token : Type}

/-- What a framing makes of the front of a stream. -/
inductive Front (Byte Token : Type)
  | wait
  | refuse
  | token (token : Token) (rest : List Byte)

structure Framing (Byte Token : Type) where
  front : List Byte → Front Byte Token
  shrinks : ∀ {bytes token rest}, front bytes = .token token rest →
    rest.length < bytes.length
  token_append : ∀ {bytes token rest}, front bytes = .token token rest →
    ∀ more, front (bytes ++ more) = .token token (rest ++ more)
  token_alone : ∀ {bytes token rest}, front bytes = .token token rest →
    ∃ used, bytes = used ++ rest ∧ front used = .token token []
  refuse_append : ∀ {bytes}, front bytes = .refuse → ∀ more, front (bytes ++ more) = .refuse

/-- The tokens taken, the bytes that are left, and whether the stream may go on. -/
structure Decoded (Byte Token : Type) where
  tokens : List Token
  rest : List Byte
  accepted : Bool

namespace Framing

variable (framing : Framing Byte Token)

/-- Every round takes a byte or more, so the length of the stream bounds them. -/
def decodeRounds : (rounds : Nat) → List Byte → Decoded Byte Token
  | 0, bytes => ⟨[], bytes, true⟩
  | rounds + 1, bytes =>
      match framing.front bytes with
      | .wait => ⟨[], bytes, true⟩
      | .refuse => ⟨[], bytes, false⟩
      | .token token rest =>
          let decoded := decodeRounds rounds rest
          { decoded with tokens := token :: decoded.tokens }

def decode (bytes : List Byte) : Decoded Byte Token :=
  framing.decodeRounds (bytes.length + 1) bytes

/-- Rounds that are left over change nothing. -/
theorem decodeRounds_eq {rounds others : Nat} {bytes : List Byte}
    (enough : bytes.length < rounds) (otherEnough : bytes.length < others) :
    framing.decodeRounds rounds bytes = framing.decodeRounds others bytes := by
  induction rounds generalizing others bytes with
  | zero => cases enough
  | succ rounds induction =>
      cases others with
      | zero => cases otherEnough
      | succ others =>
          simp only [decodeRounds]
          cases front : framing.front bytes with
          | wait => rfl
          | refuse => rfl
          | token token rest =>
              have shorter := framing.shrinks front
              have same : framing.decodeRounds rounds rest =
                  framing.decodeRounds others rest := induction (by omega) (by omega)
              simp only [same]

variable {framing}

theorem decode_wait {bytes : List Byte} (front : framing.front bytes = .wait) :
    framing.decode bytes = ⟨[], bytes, true⟩ := by
  rw [decode, decodeRounds, front]

theorem decode_refuse {bytes : List Byte} (front : framing.front bytes = .refuse) :
    framing.decode bytes = ⟨[], bytes, false⟩ := by
  rw [decode, decodeRounds, front]

theorem decode_token {bytes rest : List Byte} {token : Token}
    (front : framing.front bytes = .token token rest) :
    framing.decode bytes =
      { framing.decode rest with tokens := token :: (framing.decode rest).tokens } := by
  have shorter := framing.shrinks front
  have same : framing.decodeRounds bytes.length rest = framing.decode rest :=
    framing.decodeRounds_eq shorter (Nat.lt_succ_self _)
  rw [decode, decodeRounds, front]
  simp only [same]

/-- Induction along the tokens of a stream. -/
theorem decode_induction {motive : List Byte → Prop}
    (wait : ∀ bytes, framing.front bytes = .wait → motive bytes)
    (refuse : ∀ bytes, framing.front bytes = .refuse → motive bytes)
    (token : ∀ bytes token rest, framing.front bytes = .token token rest →
      motive rest → motive bytes) (bytes : List Byte) : motive bytes := by
  induction size : bytes.length using Nat.strongRecOn generalizing bytes with
  | ind size induction =>
      cases front : framing.front bytes with
      | wait => exact wait bytes front
      | refuse => exact refuse bytes front
      | token taken rest =>
          have shorter := framing.shrinks front
          exact token bytes taken rest front (induction rest.length (by omega) rest rfl)

/-- What has been decoded stays decoded when more bytes arrive. -/
theorem decode_append (bytes more : List Byte) :
    framing.decode (bytes ++ more) =
      if (framing.decode bytes).accepted then
        let later := framing.decode ((framing.decode bytes).rest ++ more)
        { later with tokens := (framing.decode bytes).tokens ++ later.tokens }
      else
        { framing.decode bytes with rest := (framing.decode bytes).rest ++ more } := by
  induction bytes using framing.decode_induction with
  | wait bytes front => simp [decode_wait front]
  | refuse bytes front => simp [decode_refuse front, decode_refuse (framing.refuse_append front _)]
  | token bytes token rest front induction =>
      rw [decode_token (framing.token_append front more), decode_token front, induction]
      cases (framing.decode rest).accepted <;> simp

/-- A stream that may go on has been taken to where its front waits for more. -/
theorem front_rest {bytes : List Byte} (accepted : (framing.decode bytes).accepted = true) :
    framing.front (framing.decode bytes).rest = .wait := by
  induction bytes using framing.decode_induction with
  | wait bytes front => simpa [decode_wait front] using front
  | refuse bytes front => simp [decode_refuse front] at accepted
  | token bytes token rest front induction =>
      rw [decode_token front] at accepted ⊢
      exact induction accepted

/-! ## What is left on the way -/

/-- The first stream is the second after some of its tokens have been taken. -/
inductive Reached (framing : Framing Byte Token) : List Byte → List Byte → Prop
  | here (bytes : List Byte) : Reached framing bytes bytes
  | after {bytes rest left : List Byte} {token : Token}
      (front : framing.front bytes = .token token rest)
      (later : Reached framing rest left) : Reached framing bytes left

theorem Reached.trans {first second third : List Byte} (reached : framing.Reached first second)
    (later : framing.Reached second third) : framing.Reached first third := by
  induction reached with
  | here => exact later
  | after front _ induction => exact .after front (induction later)

theorem Reached.append {bytes left : List Byte} (reached : framing.Reached bytes left)
    (more : List Byte) : framing.Reached (bytes ++ more) (left ++ more) := by
  induction reached with
  | here => exact .here _
  | after front _ induction => exact .after (framing.token_append front more) induction

theorem reached_rest (bytes : List Byte) : framing.Reached bytes (framing.decode bytes).rest := by
  induction bytes using framing.decode_induction with
  | wait bytes front => rw [decode_wait front]; exact .here _
  | refuse bytes front => rw [decode_refuse front]; exact .here _
  | token bytes token rest front induction => rw [decode_token front]; exact .after front induction

/-- What has been taken decodes by itself. -/
theorem Reached.split (waits : framing.front [] = .wait) {bytes left : List Byte}
    (reached : framing.Reached bytes left) :
    ∃ taken tokens, bytes = taken ++ left ∧ framing.decode taken = ⟨tokens, [], true⟩ := by
  induction reached with
  | here bytes => exact ⟨[], [], rfl, decode_wait waits⟩
  | @after bytes rest left token front _ induction =>
      rcases induction with ⟨taken, tokens, split, decoded⟩
      rcases framing.token_alone front with ⟨used, whole, alone⟩
      refine ⟨used ++ taken, token :: tokens, ?_, ?_⟩
      · rw [whole, split, List.append_assoc]
      · rw [decode_token (framing.token_append alone taken), List.nil_append, decoded]

/-- A stream that waits for more is still short of the token its next byte completes. -/
theorem rest_of_snoc (framing : Framing Byte Token) {left rest : List Byte} {byte : Byte} {token : Token}
    (waiting : framing.front left = .wait)
    (front : framing.front (left ++ [byte]) = .token token rest) : rest = [] := by
  rcases framing.token_alone front with ⟨used, split, alone⟩
  rcases List.eq_nil_or_concat rest with rfl | ⟨before, final, rfl⟩
  · rfl
  · rw [List.concat_eq_append, ← List.append_assoc] at split
    have whole : left = used ++ before := (List.append_inj' split rfl).1
    have taken := framing.token_append alone before
    rw [← whole, waiting] at taken
    cases taken

/-- All but the last byte of a token is not a token yet. -/
theorem front_of_snoc (framing : Framing Byte Token) {used : List Byte} {byte : Byte} {token : Token}
    (alone : framing.front (used ++ [byte]) = .token token []) :
    framing.front used = .wait := by
  cases front : framing.front used with
  | wait => rfl
  | refuse => rw [framing.refuse_append front] at alone; cases alone
  | token other rest =>
      rw [framing.token_append front] at alone
      simp at alone

end Framing

end Vpopmail.Wire

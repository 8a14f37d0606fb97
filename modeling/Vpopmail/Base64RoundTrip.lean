import Vpopmail.Base64

/-! # What base64 texts stand for

The loops write the chunks of the encoded and of the decoded text, and decoding undoes
encoding.
-/

namespace Vpopmail.Base64

open Text Chunks

/-- An `int` that is a size. -/
abbrev BufferSize := { size : Nat // size ≤ intMax }

/-- The sums of the checks do not overflow: they stay below the size, or the text ends. -/
def Countable {Cell : Type} (size : BufferSize) (text : List Cell) : Prop :=
  size.val < intMax ∨ text.length ≤ intMax

/-! ## The encoder -/

section Encoder

variable (outsz : BufferSize)

theorem encodeEnd_eq (cols : Nat) {text : List Char}
    (counted : Counted intMax outsz.val text.length (if 0 < cols then [lineEnd] else [])) :
    encodeEnd outsz.val cols ⟨text.length, filled nul outsz.val text⟩ =
      .ok (emitted nul outsz.val .internalBufferExceeded .success text
        (if 0 < cols then [lineEnd] else [])) := by
  rw [encodeEnd]
  split
  · next started =>
      rw [if_pos started] at counted
      apply emit_emitted counted
      intro _
      rw [emitted_nil]
  · rw [emitted_nil]

/-- The padded group, in two chunks. -/
theorem encodeTail_eq (bits charCount cols : Nat) (some : charCount ≠ 0) {text : List Char}
    {padded : List Char} (pair : padded = if charCount = 1 then ['=', '=']
      else [letter (bits <<< (16 - 8 * charCount) >>> 6 &&& 0x3f), '='])
    (counted : Counted intMax outsz.val text.length
      ([letter (bits <<< (16 - 8 * charCount) >>> 18),
          letter (bits <<< (16 - 8 * charCount) >>> 12 &&& 0x3f)] ::
        padded :: if 0 < cols then [lineEnd] else [])) :
    encodeTail outsz.val ⟨bits, charCount, cols, ⟨text.length, filled nul outsz.val text⟩⟩ =
      .ok (emitted nul outsz.val .internalBufferExceeded .success text
        ([letter (bits <<< (16 - 8 * charCount) >>> 18),
          letter (bits <<< (16 - 8 * charCount) >>> 12 &&& 0x3f)] ::
        padded :: if 0 < cols then [lineEnd] else [])) := by
  rw [encodeTail, if_neg some]
  apply emit_emitted counted
  intro counted
  rw [← pair]
  apply emit_emitted counted
  exact encodeEnd_eq outsz cols

/-- Three rounds of the loop. -/
theorem encodeLoop_group (a b c : Byte) (inbuf : List Byte) (cols : Nat)
    (written : Written Char) :
    encodeLoop outsz.val (a :: b :: c :: inbuf) ⟨0, 0, cols, written⟩ =
      emit intMax outsz.val .internalBufferExceeded
        (quad ((a.toNat <<< 8 + b.toNat) <<< 8 + c.toNat)) written fun written =>
          if cols + 4 = 72 then
            emit intMax outsz.val .internalBufferExceeded lineEnd written
              fun written => encodeLoop outsz.val inbuf ⟨0, 0, 0, written⟩
          else encodeLoop outsz.val inbuf ⟨0, 0, cols + 4, written⟩ := by
  rw [← Nat.zero_add a.toNat]
  rfl

theorem encodeLoop_eq (inbuf : List Byte) (cols : Nat) {text : List Char}
    (counted : Counted intMax outsz.val text.length (encodedChunks cols inbuf)) :
    encodeLoop outsz.val inbuf ⟨0, 0, cols, ⟨text.length, filled nul outsz.val text⟩⟩ =
      .ok (emitted nul outsz.val .internalBufferExceeded .success text
        (encodedChunks cols inbuf)) := by
  induction cols, inbuf using encodedChunks.induct generalizing text with
  | case1 cols =>
      rw [encodedChunks, emitted_nil]
      rfl
  | case2 cols a =>
      rw [encodedChunks, ← Nat.zero_add a.toNat] at counted ⊢
      exact encodeTail_eq outsz ((0 + a.toNat) <<< 8) 1 cols (by decide) rfl counted
  | case3 cols a b =>
      rw [encodedChunks, ← Nat.zero_add a.toNat] at counted ⊢
      exact encodeTail_eq outsz (((0 + a.toNat) <<< 8 + b.toNat) <<< 8) 2 cols (by decide) rfl
        counted
  | case4 cols a b c inbuf full notFull =>
      rw [encodedChunks] at counted
      rw [encodeLoop_group, encodedChunks]
      refine emit_emitted counted fun counted => ?_
      by_cases ended : cols + 4 = 72
      · rw [if_pos ended] at counted
        rw [if_pos ended, if_pos ended]
        exact emit_emitted counted fun counted => full counted
      · rw [if_neg ended] at counted
        rw [if_neg ended, if_neg ended]
        exact notFull counted

/-- The places of the chunks: a line has 72 characters in groups of four and two at its end. -/
theorem counted_encodedChunks {size : Nat} (small : size < intMax) (cols : Nat)
    (inbuf : List Byte) {out : Nat} (place : out % 74 = cols) (groups : cols % 4 = 0)
    (line : cols < 72) (inside : out + 1 < intMax) :
    Counted intMax size out (encodedChunks cols inbuf) := by
  have limit : intMax = 2147483647 := rfl
  induction cols, inbuf using encodedChunks.induct generalizing out with
  | case1 cols => exact True.intro
  | case2 cols a =>
      rw [encodedChunks]
      refine ⟨?_, fun room => ⟨?_, fun roomBehind => ?_⟩⟩
      · simp only [List.length_cons, List.length_nil]
        omega
      · simp only [List.length_cons, List.length_nil]
        omega
      · split
        · refine ⟨?_, fun _ => True.intro⟩
          simp only [List.length_cons, List.length_nil, lineEnd] at roomBehind ⊢
          omega
        · exact True.intro
  | case3 cols a b =>
      rw [encodedChunks]
      refine ⟨?_, fun room => ⟨?_, fun roomBehind => ?_⟩⟩
      · simp only [List.length_cons, List.length_nil]
        omega
      · simp only [List.length_cons, List.length_nil]
        omega
      · split
        · refine ⟨?_, fun _ => True.intro⟩
          simp only [List.length_cons, List.length_nil, lineEnd] at roomBehind ⊢
          omega
        · exact True.intro
  | case4 cols a b c inbuf full notFull =>
      have four (bits : Nat) : (quad bits).length = 4 := rfl
      rw [encodedChunks]
      refine ⟨?_, fun room => ?_⟩
      · rw [four]
        omega
      · rw [four] at room ⊢
        by_cases ended : cols + 4 = 72
        · rw [if_pos ended]
          have two : lineEnd.length = 2 := rfl
          refine ⟨?_, fun roomBehind => ?_⟩
          · rw [two]
            omega
          · rw [two] at roomBehind ⊢
            exact full (by omega) rfl (by decide) (by omega)
        · rw [if_neg ended]
          exact notFull (by omega) (by omega) (by omega) (by omega)

theorem counted_encoded {inbuf : List Byte} (countable : Countable outsz (encoded inbuf)) :
    Counted intMax outsz.val 0 (encodedChunks 0 inbuf) := by
  cases countable with
  | inl small => exact counted_encodedChunks small 0 inbuf rfl rfl (by decide) (by decide)
  | inr short =>
      apply counted_of_length
      rw [Nat.zero_add]
      exact short

theorem filled_nil {Cell : Type} (zero : Cell) (size : Nat) :
    filled zero size [] = List.replicate size zero :=
  List.nil_append _

theorem lineEnd_proper (cols : Nat) :
    ∀ chunk ∈ (if 0 < cols then [lineEnd] else []), chunk ≠ [] := by
  intro chunk member
  split at member
  · rw [List.eq_of_mem_singleton member]
    exact List.cons_ne_nil _ _
  · cases member

theorem encodedChunks_proper (cols : Nat) (inbuf : List Byte) :
    ∀ chunk ∈ encodedChunks cols inbuf, chunk ≠ [] := by
  induction cols, inbuf using encodedChunks.induct with
  | case1 cols => exact List.forall_mem_nil _
  | case2 cols a =>
      rw [encodedChunks, List.forall_mem_cons, List.forall_mem_cons]
      exact ⟨List.cons_ne_nil _ _, List.cons_ne_nil _ _, lineEnd_proper cols⟩
  | case3 cols a b =>
      rw [encodedChunks, List.forall_mem_cons, List.forall_mem_cons]
      exact ⟨List.cons_ne_nil _ _, List.cons_ne_nil _ _, lineEnd_proper cols⟩
  | case4 cols a b c inbuf full notFull =>
      rw [encodedChunks, List.forall_mem_cons]
      refine ⟨List.cons_ne_nil _ _, ?_⟩
      by_cases ended : cols + 4 = 72
      · rw [if_pos ended, List.forall_mem_cons]
        exact ⟨List.cons_ne_nil _ _, full⟩
      · rw [if_neg ended]
        exact notFull

/-- The encoder writes the encoded text, or reports that it is too long. -/
theorem base64Encode_reports {inbuf : List Byte} (countable : Countable outsz (encoded inbuf)) :
    ∃ outcome, base64Encode inbuf outsz.val = .ok outcome ∧
      Reports nul outsz.val .internalBufferExceeded .success (encoded inbuf) outcome := by
  have written := @encodeLoop_eq outsz inbuf 0 [] (counted_encoded outsz countable)
  rw [filled_nil] at written
  exact ⟨_, written, emitted_reports _ _ _ _ (encodedChunks_proper 0 inbuf)⟩

end Encoder

/-! ## The decoder -/

section Decoder

variable (b : Tables) (bufsz : BufferSize)

theorem decodeTail_eq (padded : Bool) {front : List Nat} (begun : front.length < 4)
    {text : List Byte}
    (counted : Counted intMax bufsz.val text.length (decodedChunks padded front).1) :
    decodeTail bufsz.val padded
        ⟨bitsOf front, front.length, ⟨text.length, filled 0 bufsz.val text⟩⟩ =
      .ok (emitted 0 bufsz.val .internalBufferExceeded (decodedChunks padded front).2 text
        (decodedChunks padded front).1) := by
  rcases front with _ | ⟨p, _ | ⟨q, _ | ⟨r, _ | ⟨s, front⟩⟩⟩⟩
  · rw [decodedChunks, emitted_nil]
    cases padded <;> rfl
  · rw [decodedChunks, emitted_nil]
    cases padded <;> rfl
  · cases padded with
    | false =>
        rw [decodedChunks, if_neg Bool.false_ne_true, emitted_nil]
        rfl
    | true =>
        rw [decodedChunks, if_pos rfl] at counted
        rw [decodedChunks, if_pos rfl, decodeTail, if_neg (by decide)]
        refine emit_emitted counted fun _ => ?_
        rw [emitted_nil]
  · cases padded with
    | false =>
        rw [decodedChunks, if_neg Bool.false_ne_true, emitted_nil]
        rfl
    | true =>
        rw [decodedChunks, if_pos rfl] at counted
        rw [decodedChunks, if_pos rfl, decodeTail, if_neg (by decide)]
        refine emit_emitted counted fun _ => ?_
        rw [emitted_nil]
  · simp only [List.length_cons] at begun
    omega

/-- What is written for the group that has been begun and the rest of the text. -/
theorem decodeLoop_eq (data : List Char) (front : List Nat) (begun : front.length < 4)
    {text : List Byte} (counted : Counted intMax bufsz.val text.length
      (decodedChunks (data.contains '=') (front ++ values b data)).1) :
    decodeLoop b bufsz.val data
        ⟨bitsOf front, front.length, ⟨text.length, filled 0 bufsz.val text⟩⟩ =
      .ok (emitted 0 bufsz.val .internalBufferExceeded
        (decodedChunks (data.contains '=') (front ++ values b data)).2 text
        (decodedChunks (data.contains '=') (front ++ values b data)).1) := by
  induction data generalizing front text with
  | nil =>
      have read : values b [] = [] := rfl
      rw [read, List.append_nil] at counted ⊢
      exact decodeTail_eq bufsz false begun counted
  | cons p data induction =>
      by_cases pad : p = '='
      · have read : values b (p :: data) = [] := by
          rw [values, pad, List.takeWhile_cons_of_neg (by decide)]
          rfl
        rw [read, List.append_nil, pad] at counted
        rw [decodeLoop, if_pos pad, read, List.append_nil, pad]
        exact decodeTail_eq bufsz true begun counted
      · have contains : (p :: data).contains '=' = data.contains '=' := by
          rw [List.contains_cons, beq_false_of_ne (Ne.symm pad), Bool.false_or]
        rw [contains] at counted
        by_cases known : b.inalphabet p = true
        · have read : values b (p :: data) = b.decoder p :: values b data := by
            rw [values, List.takeWhile_cons_of_pos (by simpa using pad),
              List.filter_cons_of_pos known, List.map_cons, values]
          rw [read] at counted
          rw [decodeLoop, if_neg pad, if_neg (by simpa using known), read, contains]
          by_cases full : front.length + 1 = 4
          · rw [if_pos full]
            obtain ⟨q, r, s, rfl⟩ := List.length_eq_three.mp (Nat.succ.inj full)
            rw [List.cons_append, List.cons_append, List.cons_append, List.nil_append,
              decodedChunks] at counted ⊢
            exact emit_emitted counted fun counted => induction [] (by decide) counted
          · rw [if_neg full]
            have longer := induction (front ++ [b.decoder p]) (by simp; omega)
              (by rwa [List.append_assoc, List.singleton_append])
            rw [bitsOf, List.foldl_append, List.length_append, List.append_assoc] at longer
            exact longer
        · have skipped : values b (p :: data) = values b data := by
            rw [values, List.takeWhile_cons_of_pos (by simpa using pad),
              List.filter_cons_of_neg known, values]
          rw [skipped] at counted
          rw [decodeLoop, if_neg pad, if_pos (by simpa using known), skipped, contains]
          exact induction front begun counted

/-- The places of the groups of three bytes. -/
theorem counted_decodedChunks {size : Nat} (small : size < intMax) (padded : Bool)
    (values : List Nat) {out : Nat} (place : out % 3 = 0) (inside : out + 1 < intMax) :
    Counted intMax size out (decodedChunks padded values).1 := by
  have limit : intMax = 2147483647 := rfl
  induction values using decodedChunks.induct padded generalizing out with
  | case1 => exact True.intro
  | case2 p => exact True.intro
  | case3 p q ended | case5 p q r ended =>
      rw [decodedChunks, if_pos ended]
      refine ⟨?_, fun _ => True.intro⟩
      simp only [List.length_cons, List.length_nil]
      omega
  | case4 p q ended | case6 p q r ended =>
      rw [decodedChunks, if_neg ended]
      exact True.intro
  | case7 p q r s values induction =>
      have three (bits : Nat) : (triple bits).length = 3 := rfl
      rw [decodedChunks]
      refine ⟨?_, fun room => ?_⟩
      · rw [three]
        omega
      · rw [three] at room ⊢
        exact induction (by omega) (by omega)

theorem decodedChunks_proper (padded : Bool) (values : List Nat) :
    ∀ chunk ∈ (decodedChunks padded values).1, chunk ≠ [] := by
  induction values using decodedChunks.induct padded with
  | case1 => exact List.forall_mem_nil _
  | case2 p => exact List.forall_mem_nil _
  | case3 p q ended | case5 p q r ended =>
      rw [decodedChunks, if_pos ended, List.forall_mem_singleton]
      exact List.cons_ne_nil _ _
  | case4 p q ended | case6 p q r ended =>
      rw [decodedChunks, if_neg ended]
      exact List.forall_mem_nil _
  | case7 p q r s values induction =>
      rw [decodedChunks, List.forall_mem_cons]
      exact ⟨List.cons_ne_nil _ _, induction⟩

/-- The decoder writes the decoded text, or reports that it is too long. -/
theorem base64Decode_reports {data : List Char} (countable : Countable bufsz (decoded b data)) :
    ∃ outcome, base64Decode b data bufsz.val = .ok outcome ∧
      Reports 0 bufsz.val .internalBufferExceeded (ending b data) (decoded b data) outcome := by
  have counted : Counted intMax bufsz.val 0
      (decodedChunks (data.contains '=') (values b data)).1 := by
    cases countable with
    | inl small => exact counted_decodedChunks small _ _ rfl (by decide)
    | inr short =>
        apply counted_of_length
        rw [Nat.zero_add]
        exact short
  have written := @decodeLoop_eq b bufsz data [] (by decide) [] counted
  rw [filled_nil] at written
  exact ⟨_, written, emitted_reports _ _ _ _ (decodedChunks_proper _ _)⟩

/-- Characters outside the alphabet are passed over wherever they stand. -/
theorem decodeLoop_filter {passed : Char → Bool}
    (unknown : ∀ p, passed p = true → p ≠ '=' ∧ b.inalphabet p = false) (size : Nat)
    (data : List Char) (d : Decoding) :
    decodeLoop b size (data.filter fun p => !passed p) d = decodeLoop b size data d := by
  induction data generalizing d with
  | nil => rfl
  | cons p data induction =>
      cases skipped : passed p with
      | true =>
          obtain ⟨plain, missing⟩ := unknown p skipped
          rw [List.filter_cons_of_neg (by simp [skipped]), induction, decodeLoop.eq_2, if_neg plain,
            if_pos (by simp [missing])]
      | false =>
          rw [List.filter_cons_of_pos (by simp [skipped])]
          simp only [decodeLoop, induction]

end Decoder

/-! ## The alphabet -/

section Alphabet

theorem inalphabet_foldr (indices : List Nat) (p : Char) :
    (indices.foldr Tables.setLetter ⟨fun _ => false, fun _ => 0⟩).inalphabet p = true ↔
      ∃ i ∈ indices, letter i = p := by
  induction indices with
  | nil => simp
  | cons i indices induction =>
      rw [List.foldr_cons, List.exists_mem_cons_iff, Tables.setLetter]
      by_cases equal : p = letter i
      · rw [equal]
        exact iff_of_true (Function.update_self _ _ _) (.inl rfl)
      · simp only [Function.update_of_ne equal]
        rw [induction]
        exact ⟨.inr, fun either => either.resolve_left fun same => equal same.symm⟩

theorem length_alphabet : alphabet.length = 64 := by decide

theorem letter_eq {sextet : Nat} (inside : sextet < alphabet.length) :
    letter sextet = alphabet[sextet] := by
  rw [letter, List.getD_eq_getElem?_getD, List.getElem?_eq_getElem inside, Option.getD_some]

theorem exists_letter_iff (p : Char) : (∃ i ∈ List.range alphabet.length, letter i = p) ↔
    p ∈ alphabet := by
  rw [List.mem_iff_getElem]
  constructor
  · intro given
    obtain ⟨i, member, rfl⟩ := given
    have inside := List.mem_range.mp member
    exact ⟨i, inside, (letter_eq inside).symm⟩
  · intro given
    obtain ⟨i, inside, rfl⟩ := given
    exact ⟨i, List.mem_range.mpr inside, letter_eq inside⟩

theorem inalphabet_iff (p : Char) : base64Init.inalphabet p = true ↔ p ∈ alphabet := by
  rw [base64Init, inalphabet_foldr, exists_letter_iff]

theorem letter_mem {sextet : Nat} (small : sextet < 64) : letter sextet ∈ alphabet := by
  rw [← exists_letter_iff, length_alphabet]
  exact ⟨sextet, List.mem_range.mpr small, rfl⟩

theorem letter_ne {sextet : Nat} (small : sextet < 64) {p : Char} (other : p ∉ alphabet) :
    letter sextet ≠ p := by
  intro equal
  rw [← equal] at other
  exact other (letter_mem small)

theorem letter_ne_pad {sextet : Nat} (small : sextet < 64) : letter sextet ≠ '=' :=
  letter_ne small (by decide)

theorem decoder_letter {sextet : Nat} (small : sextet < 64) :
    base64Init.decoder (letter sextet) = sextet := by
  revert sextet
  decide +kernel

theorem values_letter {sextet : Nat} (small : sextet < 64) (data : List Char) :
    values base64Init (letter sextet :: data) = sextet :: values base64Init data := by
  rw [values, List.takeWhile_cons_of_pos (by simpa using letter_ne_pad small),
    List.filter_cons_of_pos ((inalphabet_iff _).mpr (letter_mem small)), List.map_cons,
    decoder_letter small, values]

end Alphabet

/-! ## Groups -/

section Groups

theorem and_sextet (value : Nat) : value &&& 0x3f = value % 64 :=
  Nat.and_two_pow_sub_one_eq_mod value 6

theorem and_byte (value : Nat) : value &&& 0xff = value % 256 :=
  Nat.and_two_pow_sub_one_eq_mod value 8

theorem sextets_lt {bits : Nat} (small : bits < 2 ^ 24) :
    bits >>> 18 < 64 ∧ bits >>> 12 &&& 0x3f < 64 ∧ bits >>> 6 &&& 0x3f < 64 ∧
      bits &&& 0x3f < 64 := by
  simp only [and_sextet, Nat.shiftRight_eq_div_pow]
  omega

/-- The sextets of a group make up its bits. -/
theorem bitsOf_sextets {bits : Nat} (small : bits < 2 ^ 24) :
    bitsOf [bits >>> 18, bits >>> 12 &&& 0x3f, bits >>> 6 &&& 0x3f] + (bits &&& 0x3f) = bits := by
  simp only [bitsOf, List.foldl_cons, List.foldl_nil, and_sextet, Nat.shiftRight_eq_div_pow,
    Nat.shiftLeft_eq]
  omega

/-- The bytes of a group, whose bits are shifted out of the bytes again. -/
theorem ofNat_shiftRight {bits shift : Nat} {byte : Byte}
    (equal : bits / 2 ^ shift % 2 ^ 8 = byte.toNat) :
    BitVec.ofNat 8 (bits >>> shift) = byte := by
  apply BitVec.eq_of_toNat_eq
  rw [BitVec.toNat_ofNat, Nat.shiftRight_eq_div_pow, equal]

theorem ofNat_and_byte (bits : Nat) : BitVec.ofNat 8 (bits &&& 0xff) = BitVec.ofNat 8 bits := by
  apply BitVec.eq_of_toNat_eq
  rw [and_byte, BitVec.toNat_ofNat, BitVec.toNat_ofNat]
  exact Nat.mod_mod _ _

variable (a b c : Byte)

theorem group_lt : (a.toNat <<< 8 + b.toNat) <<< 8 + c.toNat < 2 ^ 24 := by
  have first := a.isLt
  have second := b.isLt
  have third := c.isLt
  simp only [Nat.shiftLeft_eq]
  omega

theorem triple_group : triple ((a.toNat <<< 8 + b.toNat) <<< 8 + c.toNat) = [a, b, c] := by
  have first := a.isLt
  have second := b.isLt
  have third := c.isLt
  rw [triple, ofNat_and_byte, ofNat_and_byte, List.cons.injEq, List.cons.injEq, List.cons.injEq]
  simp only [Nat.shiftLeft_eq]
  refine ⟨ofNat_shiftRight ?_, ofNat_shiftRight ?_, ?_, trivial⟩
  · omega
  · omega
  · apply BitVec.eq_of_toNat_eq
    rw [BitVec.toNat_ofNat]
    omega

theorem values_quad {bits : Nat} (small : bits < 2 ^ 24) (data : List Char) :
    values base64Init (quad bits ++ data) =
      bits >>> 18 :: (bits >>> 12 &&& 0x3f) :: (bits >>> 6 &&& 0x3f) :: (bits &&& 0x3f) ::
        values base64Init data := by
  obtain ⟨first, second, third, fourth⟩ := sextets_lt small
  rw [quad]
  simp only [List.cons_append, List.nil_append, values_letter first, values_letter second,
    values_letter third, values_letter fourth]

theorem contains_letter {sextet : Nat} (small : sextet < 64) (data : List Char) :
    (letter sextet :: data).contains '=' = data.contains '=' := by
  rw [List.contains_cons, beq_false_of_ne (letter_ne_pad small).symm, Bool.false_or]

theorem contains_quad {bits : Nat} (small : bits < 2 ^ 24) (data : List Char) :
    (quad bits ++ data).contains '=' = data.contains '=' := by
  obtain ⟨first, second, third, fourth⟩ := sextets_lt small
  rw [quad]
  simp only [List.cons_append, List.nil_append, contains_letter first, contains_letter second,
    contains_letter third, contains_letter fourth]

theorem values_pad (data : List Char) : values base64Init ('=' :: data) = [] := by
  rw [values, List.takeWhile_cons_of_neg (by decide)]
  rfl

theorem values_lineEnd (data : List Char) :
    values base64Init (lineEnd ++ data) = values base64Init data := by
  rw [lineEnd, List.cons_append, List.cons_append, List.nil_append, values,
    List.takeWhile_cons_of_pos (by decide), List.takeWhile_cons_of_pos (by decide),
    List.filter_cons_of_neg (by rw [inalphabet_iff]; decide),
    List.filter_cons_of_neg (by rw [inalphabet_iff]; decide), values]

theorem contains_lineEnd (data : List Char) : (lineEnd ++ data).contains '=' = data.contains '=' :=
  rfl

/-- A group of one byte, which the decoder shifts out of twelve bits. -/
theorem single_group :
    BitVec.ofNat 8 (bitsOf [a.toNat <<< 8 <<< 8 >>> 18, a.toNat <<< 8 <<< 8 >>> 12 &&& 0x3f] >>>
      10) = a := by
  have first := a.isLt
  apply ofNat_shiftRight
  simp only [bitsOf, List.foldl_cons, List.foldl_nil, and_sextet, Nat.shiftRight_eq_div_pow,
    Nat.shiftLeft_eq]
  omega

theorem double_group {bits : Nat} (equal : bits = (a.toNat <<< 8 + b.toNat) <<< 8) :
    [BitVec.ofNat 8
        (bitsOf [bits >>> 18, bits >>> 12 &&& 0x3f, bits >>> 6 &&& 0x3f] >>> 16),
      BitVec.ofNat 8
        (bitsOf [bits >>> 18, bits >>> 12 &&& 0x3f, bits >>> 6 &&& 0x3f] >>> 8 &&& 0xff)] =
      [a, b] := by
  have first := a.isLt
  have second := b.isLt
  rw [ofNat_and_byte, List.cons.injEq, List.cons.injEq]
  simp only [Nat.shiftLeft_eq] at equal
  refine ⟨ofNat_shiftRight ?_, ofNat_shiftRight ?_, rfl⟩ <;>
    simp only [bitsOf, List.foldl_cons, List.foldl_nil, and_sextet, Nat.shiftRight_eq_div_pow,
      Nat.shiftLeft_eq] <;>
    omega

/-- What the decoder makes of the encoded text. -/
theorem decodedChunks_encodedChunks (cols : Nat) (inbuf : List Byte) {data : List Char}
    (written : data = (encodedChunks cols inbuf).flatten) :
    (decodedChunks (data.contains '=') (values base64Init data)).1.flatten = inbuf ∧
      (decodedChunks (data.contains '=') (values base64Init data)).2 = .success := by
  induction cols, inbuf using encodedChunks.induct generalizing data with
  | case1 cols =>
      rw [written]
      exact ⟨rfl, rfl⟩
  | case2 cols a =>
      have small : a.toNat <<< 8 <<< 8 < 2 ^ 24 := by
        have first := a.isLt
        simp only [Nat.shiftLeft_eq]
        omega
      obtain ⟨first, second, _, _⟩ := sextets_lt small
      rw [written, encodedChunks, List.flatten_cons, List.flatten_cons]
      simp only [List.cons_append, List.nil_append, values_letter first, values_letter second,
        contains_letter first, contains_letter second, values_pad]
      rw [List.contains_cons, decodedChunks]
      exact ⟨congrArg (fun byte => [byte]) (single_group a), rfl⟩
  | case3 cols a b =>
      have small : (a.toNat <<< 8 + b.toNat) <<< 8 < 2 ^ 24 := group_lt a b 0
      obtain ⟨first, second, third, _⟩ := sextets_lt small
      rw [written, encodedChunks, List.flatten_cons, List.flatten_cons]
      simp only [List.cons_append, List.nil_append, values_letter first, values_letter second,
        values_letter third, contains_letter first, contains_letter second,
        contains_letter third, values_pad]
      rw [List.contains_cons, decodedChunks]
      exact ⟨double_group a b rfl, rfl⟩
  | case4 cols a b c inbuf full notFull =>
      have small := group_lt a b c
      have behind : ∃ rest, data = quad ((a.toNat <<< 8 + b.toNat) <<< 8 + c.toNat) ++ rest ∧
          (decodedChunks (rest.contains '=') (values base64Init rest)).1.flatten = inbuf ∧
          (decodedChunks (rest.contains '=') (values base64Init rest)).2 = .success := by
        rw [written, encodedChunks, List.flatten_cons]
        refine ⟨_, rfl, ?_⟩
        by_cases ended : cols + 4 = 72
        · rw [if_pos ended, List.flatten_cons, values_lineEnd, contains_lineEnd]
          exact full rfl
        · rw [if_neg ended]
          exact notFull rfl
      obtain ⟨rest, rfl, bytes, success⟩ := behind
      rw [values_quad small, contains_quad small, decodedChunks, bitsOf_sextets small,
        triple_group, List.flatten_cons, bytes]
      exact ⟨rfl, success⟩

end Groups

/-! ## Whole texts -/

theorem free_letter {sextet : Nat} (small : sextet < 64) (data : List Char) :
    Free nul (letter sextet :: data) ↔ Free nul data := by
  rw [free_cons]
  exact and_iff_right (letter_ne small (by decide)).symm

theorem free_lineEnd (cols : Nat) : Free nul (if 0 < cols then [lineEnd] else []).flatten := by
  split <;> decide

theorem free_encodedChunks (cols : Nat) (inbuf : List Byte) :
    Free nul (encodedChunks cols inbuf).flatten := by
  induction cols, inbuf using encodedChunks.induct with
  | case1 cols => exact free_nil nul
  | case2 cols a =>
      obtain ⟨first, second, _, _⟩ := sextets_lt (group_lt a 0 0)
      rw [encodedChunks, List.flatten_cons, List.flatten_cons, free_append, free_append]
      exact ⟨(free_letter first _).mpr ((free_letter second _).mpr (free_nil nul)), by decide,
        free_lineEnd cols⟩
  | case3 cols a b =>
      obtain ⟨first, second, third, _⟩ := sextets_lt (group_lt a b 0)
      rw [encodedChunks, List.flatten_cons, List.flatten_cons, free_append, free_append]
      exact ⟨(free_letter first _).mpr ((free_letter second _).mpr (free_nil nul)),
        (free_letter third _).mpr (by decide), free_lineEnd cols⟩
  | case4 cols a b c inbuf full notFull =>
      obtain ⟨first, second, third, fourth⟩ := sextets_lt (group_lt a b c)
      rw [encodedChunks, List.flatten_cons, free_append]
      refine ⟨?_, ?_⟩
      · exact (free_letter first _).mpr ((free_letter second _).mpr
          ((free_letter third _).mpr ((free_letter fourth _).mpr (free_nil nul))))
      · by_cases ended : cols + 4 = 72
        · rw [if_pos ended, List.flatten_cons, free_append]
          exact ⟨by decide, full⟩
        · rw [if_neg ended]
          exact notFull

/-- The string in the encoder's buffer. -/
theorem cstring_encoded {inbuf : List Byte} {outsz : Nat} (room : (encoded inbuf).length < outsz) :
    cstring (filled nul outsz (encoded inbuf)) = encoded inbuf := by
  rw [filled, ← Nat.succ_pred_eq_of_pos (Nat.sub_pos_of_lt room), List.replicate_succ]
  exact cstring_append_nul (free_encodedChunks 0 inbuf) _

theorem decoded_encoded (inbuf : List Byte) :
    decoded base64Init (encoded inbuf) = inbuf ∧ ending base64Init (encoded inbuf) = .success :=
  decodedChunks_encodedChunks 0 inbuf rfl

theorem base64Decode_encoded {inbuf : List Byte} {outsz bufsz : BufferSize}
    (room : (encoded inbuf).length < outsz.val) (enough : inbuf.length < bufsz.val) :
    ∃ cells, base64Encode inbuf outsz.val = .ok (.success, cells) ∧
      base64Decode base64Init (cstring cells) bufsz.val =
        .ok (.success, filled 0 bufsz.val inbuf) := by
  obtain ⟨bytes, success⟩ := decoded_encoded inbuf
  obtain ⟨outcome, ran, reports⟩ :=
    base64Encode_reports outsz (.inr (Nat.le_trans (Nat.le_of_lt room) outsz.2))
  obtain ⟨result, decodes, told⟩ :=
    @base64Decode_reports base64Init bufsz (encoded inbuf)
      (.inr (by rw [bytes]; exact Nat.le_trans (Nat.le_of_lt enough) bufsz.2))
  rw [reports.complete (.inr room)] at ran
  rw [bytes, success] at told
  rw [told.complete (.inr enough)] at decodes
  refine ⟨_, ran, ?_⟩
  rw [cstring_encoded room]
  exact decodes

theorem base64Decode_lineEnds (data : List Char) (size : Nat) :
    base64Decode base64Init (data.filter fun p => !lineEnd.contains p) size =
      base64Decode base64Init data size := by
  apply decodeLoop_filter
  intro p passed
  have either : p = '\r' ∨ p = '\n' := by simpa [lineEnd] using passed
  rw [← Bool.not_eq_true, inalphabet_iff]
  rcases either with rfl | rfl <;> decide

/-- Where no sum overflows, both functions stay within the buffer and tell a result that is too
long; line breaks do not matter, and the original bytes come back with zeros behind them. -/
theorem base64_roundTrip :
    (∀ (inbuf : List Byte) (outsz : BufferSize), Countable outsz (encoded inbuf) →
      ∃ outcome, base64Encode inbuf outsz.val = .ok outcome ∧
        Reports nul outsz.val .internalBufferExceeded .success (encoded inbuf) outcome) ∧
    (∀ (data : List Char) (bufsz : BufferSize), Countable bufsz (decoded base64Init data) →
      ∃ outcome, base64Decode base64Init data bufsz.val = .ok outcome ∧
        Reports 0 bufsz.val .internalBufferExceeded (ending base64Init data)
          (decoded base64Init data) outcome) ∧
    (∀ (data : List Char) (size : Nat),
      base64Decode base64Init (data.filter fun p => !lineEnd.contains p) size =
        base64Decode base64Init data size) ∧
    ∀ (inbuf : List Byte) (outsz bufsz : BufferSize), (encoded inbuf).length < outsz.val →
      inbuf.length < bufsz.val →
      ∃ cells, base64Encode inbuf outsz.val = .ok (.success, cells) ∧
        base64Decode base64Init (cstring cells) bufsz.val =
          .ok (.success, filled 0 bufsz.val inbuf) :=
  ⟨fun _ outsz countable => base64Encode_reports outsz countable,
    fun _ bufsz countable => base64Decode_reports base64Init bufsz countable,
    base64Decode_lineEnds,
    fun _ _ _ room enough => base64Decode_encoded room enough⟩

/-- Three bytes, the last of them zero, in buffers with room for them. -/
theorem base64_roundTrip_zero :
    ∃ cells, base64Encode [1, 2, 0] 8 = .ok (.success, cells) ∧
      base64Decode base64Init (cstring cells) 4 = .ok (.success, filled 0 4 [1, 2, 0]) :=
  base64_roundTrip.2.2.2 [1, 2, 0] ⟨8, by decide⟩ ⟨4, by decide⟩ (by decide) (by decide)

/-- The result of the decoder does not tell a zero byte from none. -/
theorem base64Decode_forgets_length :
    ¬∃ length : Code × List Byte → Nat, ∀ (inbuf : List Byte) (outsz bufsz : BufferSize),
      (encoded inbuf).length < outsz.val → inbuf.length < bufsz.val →
      ∀ cells, base64Encode inbuf outsz.val = .ok (.success, cells) →
      ∃ result, base64Decode base64Init (cstring cells) bufsz.val = .ok result ∧
        length result = inbuf.length := by
  intro given
  obtain ⟨length, told⟩ := given
  obtain ⟨result, decodes, none⟩ := told [] ⟨8, by decide⟩ ⟨4, by decide⟩ (by decide)
    (by decide) (List.replicate 8 nul) (by decide)
  obtain ⟨other, decodesZero, one⟩ := told [0] ⟨8, by decide⟩ ⟨4, by decide⟩ (by decide)
    (by decide) (filled nul 8 ['A', 'A', '=', '=']) (by decide)
  have zeros : base64Decode base64Init (cstring (List.replicate 8 nul)) 4 =
      base64Decode base64Init (cstring (filled nul 8 ['A', 'A', '=', '='])) 4 := by
    decide
  have same := Except.ok.inj (decodes.symm.trans (zeros.trans decodesZero))
  rw [same, one] at none
  cases none

end Vpopmail.Base64
